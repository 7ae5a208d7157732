import GlyphRules.Book.CallOrder
import GlyphRules.Book.Partition
import GlyphRules.Feature.RuleText

/-! Routines and books as feature files.

A lookup of a feature file holds rules of one type, flag and language; `arrange` splits a routine
into such lookups. Before a routine is written, its preamble names the classes and routines that its
text refers to. -/
namespace GlyphRules.Feature

/-! ### Splitting -/

/-- A lookup type for telling rules apart. Cursive attachments count as type
one, other attachments as zero. The label is how the type is written. -/
structure TypeKey where
  number : Option Int
  label : String

instance : BEq TypeKey := ⟨fun a b => a.number == b.number⟩

def typeKey (r : Rule) : Except Fault TypeKey :=
  match r.body with
  | .substitution s => do
    match ← s.lookupType false with
    | none => return ⟨none, "None"⟩
    | some n => return ⟨some n, toString n⟩
  | .positioning p => .ok ⟨some p.lookupType, toString p.lookupType⟩
  | .attachment a => .ok (if a.isCursive then ⟨some 1, "True"⟩ else ⟨some 0, "False"⟩)
  | .chaining _ => .ok ⟨some 1, "1"⟩

def splitOff (of_ : Routine) (label : String) (part : Routine) : Act RoutineId := do
  let name := match of_.name with
    | some "" | none => part.name
    | some n => some (n ++ "_" ++ label)
  let (i, b) := (← get).addRoutine { part with name }
  set b
  return i

def splitInto {κ : Type} (of_ : Routine) (label : κ → String) (part : κ → List RuleId → Routine)
    (groups : List (κ × List RuleId)) : Act (List RoutineId) :=
  groups.mapM fun g => splitOff of_ (label g.1) (part g.1 g.2)

def arrangeByKind (i : RoutineId) : Act (Option (List RoutineId)) := do
  let b ← get
  return if (Text.distinct ((b.rulesOf i).map Rule.kind)).length == 1 then none else some []

/-- The rules of each lookup type, if they have to be kept apart. Single substitutions
go with multiple and with chained ones. -/
def typeGroups (b : Book) (ids : List RuleId) : Except Fault (Option (List (TypeKey × List RuleId))) := do
  let keys ← ids.mapM fun r => do return (r, ← typeKey (b.rule r))
  let groups := groupBy keys
  if groups.length == 1 then return none
  let numbers := groups.map (·.1.number)
  if groups.length > 1 && numbers.contains none then throw .wrongKind
  let isJust (a b : Int) : Bool :=
    groups.length == 2 && numbers.contains (some a) && numbers.contains (some b)
  return if isJust 1 2 || isJust 1 8 then none else some groups

def arrangeByType (i : RoutineId) : Act (Option (List RoutineId)) := do
  let b ← get
  let r := b.routine i
  match ← ofExcept (typeGroups b (b.ruleIds i)) with
  | none => return none
  | some groups =>
    return some (← splitInto r TypeKey.label (fun _ ids => { content := .rules ids, flags := r.flags }) groups)

/-- A rule without flags gets flags of which none is set. -/
def defaultFlags (id : RuleId) : Act Unit :=
  modify fun b => b.alterRule id fun r => if r.flags.counts then r else { r with flags := .bits 0 }

def arrangeByFlags (i : RoutineId) : Act (Option (List RoutineId)) := do
  let ids := (← get).ruleIds i
  ids.forM defaultFlags
  let b ← get
  let r := b.routine i
  match groupBy (ids.map fun id => (id, (b.rule id).flags)) with
  | [(flags, _)] =>
    let own := if r.flags.counts then r.flags else .bits 0
    modify fun b => b.alterRoutine i fun r => { r with flags := own }
    match own, flags with
    | .bits a, .bits b =>
      modify fun book => book.alterRoutine i fun r => { r with flags := .bits (Flags.lorBits a b) }
      return none
    | _, _ => throw .wrongKind
  | groups => return some (← splitInto r Flags.written (fun k ids => { content := .rules ids, flags := k }) groups)

/-- Change calls one by one, position after position. -/
def eachCall (f : Lookup → Act Lookup) (calls : Calls) : Act Calls :=
  calls.mapM fun slot =>
    match slot with
    | none => return none
    | some ls => return some (← ls.mapM f)

def copyRoutine (i : RoutineId) : Act RoutineId := do
  let (j, b) := (← get).addRoutine ((← get).routine i)
  set b
  return j

def copyCall : Lookup → Act Lookup
  | .bare i => return .bare (← copyRoutine i)
  | .ref { routine := some i, name } => return .ref { routine := some (← copyRoutine i), name }
  | l => return l

def copyFor (r : Rule) (language : LanguageSystem) : Act RuleId := do
  let body ← match r.body with
    | .chaining c => do pure (RuleBody.chaining { c with calls := ← eachCall copyCall c.calls, group := none })
    | .substitution s => do pure (.substitution { s with calls := ← eachCall copyCall s.calls })
    | body => pure body
  let (id, b) := (← get).addRule
    { r with body, languages := some (.pairs [language]), languageGroup := none }
  set b
  return id

def languageParts (id : RuleId) (r : Rule) : Act (List (RuleId × LanguageSystem)) :=
  match r.languages with
  | none | some (.pairs []) | some (.text "") => return [(id, ("DFLT", "dflt"))]
  | some (.pairs ls) => ls.mapM fun l => return (← copyFor r l, l)
  | some (.text s) => (s.toList.map fun c => (String.ofList [c], "")).mapM fun l => return (← copyFor r l, l)

def arrangeByLanguage (i : RoutineId) : Act (Option (List RoutineId)) := do
  let b ← get
  let parts ← (b.ruleIds i).mapM fun id => languageParts id (b.rule id)
  let groups := groupBy parts.flatten
  if groups.length < 2 then return none
  let r := b.routine i
  return some (← splitInto r (fun k => k.1 ++ "_" ++ k.2)
    (fun k ids => { content := .rules ids, languages := .pairs [k], flags := r.flags }) groups)

/-- Whether a way to split gave any parts. -/
def anyParts : Option (List RoutineId) → Bool
  | some (_ :: _) => true
  | _ => false

/-- The parts into which a routine splits: by the first way that gives any. -/
def arrange (i : RoutineId) : Act (Option (List RoutineId)) := do
  let kinds ← arrangeByKind i
  if anyParts kinds then return kinds
  let types ← arrangeByType i
  if anyParts types then return types
  let languages ← arrangeByLanguage i
  if anyParts languages then return languages
  let flags ← arrangeByFlags i
  if anyParts flags then return flags
  return none

/-! ### Preambles -/

/-- The next number for a class or routine that needs a name. -/
def nextIndex : Act String := do
  match (← get).classIndex with
  | .unusable => throw .wrongKind
  | .unset =>
    modify fun b => { b with classIndex := .at 1 }
    return "1"
  | .at n =>
    modify fun b => { b with classIndex := .at (n + 1) }
    return toString (n + 1)

end GlyphRules.Feature

namespace GlyphRules.Book

def classFor (b : Book) (glyphs : List String) (name : String) : String × Book :=
  match b.namedClasses.find? fun (_, v) => Text.sort v == Text.sort glyphs with
  | some (k, _) => (k, b)
  | none => (name, { b with namedClasses := Dict.set b.namedClasses name glyphs })

end GlyphRules.Book

namespace GlyphRules.Feature

/-- Slots of more than five glyphs become named classes. -/
def nameLongSlots (slots : List Slot) : Act (List Slot) :=
  slots.mapM fun s => do
    if s.length > 5 then
      if !isSortable s then throw .wrongKind
      let name := "class" ++ (← nextIndex)
      let (name, b) := (← get).classFor (Text.sort s) name
      set b
      return ["@" ++ name]
    else return s

def nameCounts (name : Option String) : Bool := name.getD "" != ""

def nameCalled (i : RoutineId) : Act Unit := do
  if !nameCounts ((← get).routine i).name then
    let n := "ChainedRoutine" ++ (← nextIndex)
    modify fun b => b.alterRoutine i fun r => { r with name := some n }

def nameCall (l : Lookup) : Act Lookup := do
  match l with
  | .bare _ => throw .brokenPromise
  | .ref { routine := none, .. } => throw .brokenPromise
  | .ref { routine := some i, name } =>
    nameCalled i
    match name with
    | none => throw .missingPart
    | some n =>
      let own := ((← get).routine i).name
      return .ref { routine := some i, name := if nameCounts n then name else some own }

def alterChain (f : Chaining → Chaining) (r : Rule) : Rule :=
  match r.body with
  | .chaining c => { r with body := .chaining (f c) }
  | _ => r

def chainSlots (id : RuleId) (c : Chaining) : Act Unit := do
  match c.input with
  | none => throw .wrongKind
  | some input =>
    let input ← nameLongSlots input
    modify fun b => b.alterRule id (alterChain fun c => { c with input := some input })
    let before ← nameLongSlots c.before
    modify fun b => b.alterRule id (alterChain fun c => { c with before })
    let after ← nameLongSlots c.after
    modify fun b => b.alterRule id (alterChain fun c => { c with after })

def chainPreamble (id : RuleId) (c : Chaining) : Act Unit := do
  chainSlots id c
  let calls ← eachCall nameCall c.calls
  modify fun b => b.setCalls id calls

def defineMarks (name : Option String) (run : List String × Point) : Act (Option Statement) := do
  let b ← get
  if b.markClassesDone.contains (name, run.1) then return none
  set { b with markClassesDone := b.markClassesDone ++ [(name, run.1)] }
  return some (.markClass (slotRef run.1) run.2 (name.getD "None"))

def attachmentPreamble (id : RuleId) (a : Attachment) : Act (List Statement) := do
  if a.isCursive then return []
  let a := groupAnchors a
  modify fun b => b.alterRule id fun r => { r with body := .attachment a }
  let definitions ← (a.markRuns.getD []).mapM (defineMarks a.baseName)
  return [.block (definitions.filterMap fun d => d)]

def rulePreamble (id : RuleId) : Act (List Statement) := do
  match ((← get).rule id).body with
  | .chaining c => chainPreamble id c; return []
  | .attachment a => attachmentPreamble id a
  | _ => return []

def markClassFor (label : String) (marks : Option (List String)) : Act String := do
  match marks with
  | none => throw .brokenPromise
  | some marks =>
    let b ← get
    let (name, b) := { b with markIndex := b.markIndex + 1 }.classFor marks
      (label ++ toString (b.markIndex + 1))
    set b
    return name

def setMarkClass (i : RoutineId) (flags : Flags) (mask : Nat) (label : String) (marks : Option (List String))
    (setClass : String → Routine → Routine) : Act Unit := do
  if ← ofExcept (flags.test mask) then
    let name ← markClassFor label marks
    modify fun b => b.alterRoutine i (setClass name)

def routinePreamble (i : RoutineId) : Act (List Statement) := do
  let said ← ((← get).ruleIds i).mapM rulePreamble
  let r := (← get).routine i
  setMarkClass i r.flags 0xFF00 "markAttachmentSet" r.markAttachmentSet fun name r =>
    { r with markAttachmentClass := some name }
  setMarkClass i r.flags 0x10 "markFilteringSet" r.markFilteringSet fun name r =>
    { r with markFilteringClass := some name }
  return said.flatten

/-! ### Routines -/

def sourceComment (text : String) : Statement := .comment ("# Original source: " ++ text ++ " ")

def addressParts : Address → Except Fault (List String)
  | .none => .ok []
  | .number _ => .error .wrongKind
  | .text s => .ok (s.toList.map fun c => String.ofList [c])
  | .list l => .ok (l.map Address.written)

def ruleStatements (b : Book) : Address → List Rule → Except Fault (List Statement)
  | _, [] => .ok []
  | last, r :: rs => do
    let changed := r.address.counts && !r.address.same last
    let s ← ofRule b r
    let rest ← ruleStatements b (if changed then r.address else last) rs
    return (if changed then [sourceComment r.address.written] else []) ++ s :: rest

/-- The warnings that writing rules gives, up to the first rule that cannot be written. -/
def noteWarnings : List Rule → Act Unit
  | [] => pure ()
  | r :: rs => do
    modify fun b => (ruleWarning? r).elim b b.warn
    match ofRule (← get) r with
    | .ok _ => noteWarnings rs
    | .error _ => pure ()

def routineSource (a : Address) : Except Fault (List Statement) := do
  if a.counts then return [sourceComment (Text.join " " (← addressParts a))] else return []

def wholeStatement (i : RoutineId) : Act Statement := do
  let b ← get
  let r := b.routine i
  let filters ← ofExcept (r.flags.test 0x10)
  let attaches ← ofExcept (r.flags.test 0xFF00)
  let flags := Statement.lookupFlag r.flags (if attaches then r.markAttachmentClass else none)
    (if filters then r.markFilteringClass else none)
  let source ← ofExcept (routineSource r.address)
  noteWarnings (b.rulesOf i)
  let rules ← ofExcept (ruleStatements b r.address (b.rulesOf i))
  let body := [flags] ++ r.comments.map .comment ++ [.comment ";"] ++ source ++ rules
  match r.name with
  | none | some "" => return .block body
  | some n => return .lookup n body

def routineStatement : Nat → Bool → RoutineId → Act Statement
  | 0, _, _ => throw .endless
  | fuel + 1, inFeature, i => do
    match ((← get).routine i).content with
    | .missing => throw .missingPart
    | .extension rs =>
      if inFeature then throw .wrongKind
      return .block (← rs.mapM (routineStatement fuel false))
    | .rules _ =>
      match ← arrange i, inFeature with
      | some (p :: ps), true => return .block (← (p :: ps).mapM (routineStatement fuel true))
      | _, _ => wholeStatement i

/-- Splitting goes by kind, type, language and flags, so four levels are enough
for a routine; extensions add theirs. -/
def levels (b : Book) : Nat := b.routines.size + 8

def statementOf (inFeature : Bool) (i : RoutineId) : Act Statement := do
  routineStatement (levels (← get)) inFeature i

def nameOf : Statement → Option String
  | .lookup n _ => some n
  | _ => none

def languageLine (last language : String) : Except Fault (List Statement) :=
  if language == last then .ok []
  else if language.length > 4 then .error .brokenPromise
  else .ok [.language (Text.padLeft ' ' 4 language)]

def callUnder (i : RoutineId) (said : String × List Statement) (system : LanguageSystem) :
    Act (String × List Statement) := do
  let line ← ofExcept (languageLine said.1 system.2)
  let call := Statement.call (nameOf (← statementOf false i))
  return (system.2, said.2 ++ [.script system.1] ++ line ++ [call])

/-- A call of a routine from a feature: by name, or in full if it is used only once. -/
def callStatement (tag : String) (l : Lookup) : Act Statement := do
  match l with
  | .bare _ => throw .wrongKind
  | .ref { routine := none, .. } => throw .missingPart
  | .ref { routine := some i, .. } =>
    let r := (← get).routine i
    if tag == "aalt" || r.languages.isEmpty then
      if r.usecount == 1 then statementOf true i
      else return .call (nameOf (← statementOf false i))
    else
      let systems ← ofExcept r.languages.systems?
      return .block (← systems.foldlM (callUnder i) ("dflt", [])).2

/-! ### Books -/

def languageSystems : Act (List Statement) := do
  Act.hoistLanguages
  let scripts := (← get).scripts
  if scripts.length ≤ 1 then return []
  return scripts.flatMap fun (s, ls) => ls.map fun l => .languageSystem s l

def categoryTable (b : Book) : Statement :=
  let of_ (category : String) : GlyphRef :=
    .members ((b.glyphClasses.filter (·.2 == some category)).map (·.1))
  .table "GDEF" [.categories (of_ "base") (of_ "ligature") (of_ "mark") (of_ "component")]

def nameRoutine (i : RoutineId) : Act Unit := do
  match ((← get).routine i).name with
  | none | some "" =>
    let (name, b) := (← get).gensym "Routine_"
    set (b.alterRoutine i fun r => { r with name := some name })
  | _ => pure ()

/-- Name a routine in force, and say what has to be said before it if it has rules. -/
def prepare (i : RoutineId) : Act (List Statement) := do
  nameRoutine i
  let said ← routinePreamble i
  return if ((← get).ruleIds i).isEmpty then [] else said

/-- A routine in force as a lookup, unless it has no rules or is used only once. -/
def lookupOf (i : RoutineId) : Act (Option Statement) := do
  let b ← get
  if (b.ruleIds i).isEmpty || (b.routine i).usecount == 1 then return none
  return some (← statementOf false i)

def featureOf (feature : String × List Lookup) : Act Statement :=
  return .feature feature.1 (← feature.2.mapM (callStatement feature.1))

def classDefinition (c : String × List String) : Statement := .glyphClass c.1 (.members c.2)

def bookStatements (categories : Bool) : Act (List Statement) := do
  let systems ← languageSystems
  let book ← get
  let gdef := if categories then [categoryTable book] else []
  let places ← Act.callOrder
  let order := (← get).order
  let routines := places.filterMap fun n => order[n]?
  let preambles ← routines.mapM prepare
  let classes := (← get).namedClasses.map classDefinition
  let lookups ← routines.mapM lookupOf
  let features ← (← get).features.mapM featureOf
  return systems ++ gdef ++ preambles.flatten ++ classes ++ [.comment ""] ++ lookups.filterMap id ++ features

def bookText (categories : Bool) : Act String := do
  ofExcept (fileText (← bookStatements categories))

end GlyphRules.Feature
