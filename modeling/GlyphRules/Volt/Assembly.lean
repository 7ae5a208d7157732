import GlyphRules.Volt.Reader
import GlyphRules.Book.Reference
import GlyphRules.Feature.Statement

/-! Rules from a VOLT project.

Groups come first, those that others name before them; then glyphs, anchors, settings and scripts,
in the order of the project; then lookups; and last the features, which name lookups. A slot of a
rule holds the glyph names of a coverage; a list within a coverage makes alternatives within
alternatives, for which there is no text. -/
namespace GlyphRules.Volt

/-- What may stand at one place of a rule. -/
inductive Choice where
  | name (glyph : String)
  /-- A range within a list. -/
  | span (first last : String)
  /-- Alternatives of their own. -/
  | several (choices : List Choice)
  /-- A member of a group that is not a glyph. -/
  | member (item : Item)

def Choice.ofMember : Item → Choice
  | .glyph g => .name g
  | item => .member item

/-- How a choice is written; what cannot be written stands without a name. -/
def Choice.text : Choice → String
  | .name g => g
  | .span first last => Feature.glyphText first ++ " - " ++ Feature.glyphText last
  | _ => nameless

abbrev ChoiceSlot := List Choice

structure RuleForm where
  before : List ChoiceSlot
  input : List ChoiceSlot
  after : List ChoiceSlot
  replacement : List ChoiceSlot

structure RoutineForm where
  name : String
  flags : Nat
  filter : Option ChoiceSlot
  attachment : Option ChoiceSlot
  rules : List RuleForm := []

/-- A project that is being put together. -/
structure Assembly where
  /-- The glyphs of the font, by number. -/
  order : Option (List String) := none
  groups : List (String × Coverage) := []
  /-- The class name of each group and of each kind of anchor. -/
  classNames : List (String × String) := []
  glyphMap : List (String × String) := []
  glyphClasses : List (String × GlyphKind) := []
  marks : List String := []
  ligatures : List (String × Option Int) := []
  /-- The anchors of each glyph: by name, then by component. -/
  anchors : List (String × List (String × List (Int × Int × Int))) := []
  /-- The class of each anchor of a mark. -/
  markClasses : List ((String × String) × String) := []
  settings : List String := []
  /-- The lookups of each feature: by script, then by language. -/
  features : List (String × List (String × List (String × List String))) := []
  routines : List RoutineForm := []

/-! ### Names of classes -/

def isClassChar (c : Char) : Bool := c.isAlphanum || c == '_' || c == '.' || c == '-'

/-- A name that is not taken: low lines are added while it is. -/
def freshName : Nat → List String → String → String
  | 0, _, name => name
  | fuel + 1, taken, name => if taken.contains name then freshName fuel taken (name ++ "_") else name

namespace Assembly

def className (a : Assembly) (name : String) : String × Assembly :=
  match Dict.get? a.classNames name with
  | some n => (n, a)
  | none =>
    let taken := a.classNames.map (·.2)
    let plain := String.ofList (name.toList.map fun c => if isClassChar c then c else '_')
    let n := freshName (taken.length + 1) taken plain
    (n, { a with classNames := a.classNames ++ [(name, n)] })

end Assembly

/-! ### Groups -/

def GroupEntry.named (members : Coverage) : List String := members.filterMap fun
  | .group g => some (Text.lower g)
  | _ => none

/-- A group that another names comes before it; other groups follow their names. -/
def precedes (a b : String × Coverage) : Bool :=
  let (x, y) := (Text.lower a.1, Text.lower b.1)
  if (GroupEntry.named b.2).contains x then true
  else if (GroupEntry.named a.2).contains y then false
  else x < y

/-- Where a new item goes in a sorted list: halve the list until nothing is left. -/
def insertionPoint {α : Type} (lt : α → α → Bool) (sorted : List α) (x : α) : Nat → Nat → Nat → Nat
  | 0, low, _ => low
  | fuel + 1, low, high =>
    if low < high then
      let middle := low + (high - low) / 2
      match sorted[middle]? with
      | none => low
      | some m => if lt x m then insertionPoint lt sorted x fuel low middle
        else insertionPoint lt sorted x fuel (middle + 1) high
    else low

/-- The items at the start that already run one way; a falling run is turned round. -/
def firstRun {α : Type} (lt : α → α → Bool) : List α → List α × List α
  | [] => ([], [])
  | [x] => ([x], [])
  | x :: y :: rest =>
    let falling := lt y x
    let run := go falling y rest
    let taken := x :: y :: rest.take run
    (if falling then taken.reverse else taken, rest.drop run)
where
  go (falling : Bool) (last : α) : List α → Nat
    | [] => 0
    | z :: zs => if lt z last == falling then go falling z zs + 1 else 0

/-- Sort by insertion at halved places. The order may be circular, so the places count. -/
def sortByHalving {α : Type} (lt : α → α → Bool) (l : List α) : List α :=
  let (run, rest) := firstRun lt l
  rest.foldl (fun sorted x =>
    let i := insertionPoint lt sorted x (sorted.length + 1) 0 sorted.length
    sorted.take i ++ x :: sorted.drop i) run

def Project.groups (p : Project) : Except Fault (List (String × Coverage)) := do
  let groups := p.filterMap fun
    | .group g => some g
    | _ => none
  let groups ← groups.mapM fun g =>
    match g.members with
    | some m => Except.ok (g.name, m)
    | none => .error Fault.missingPart
  return sortByHalving precedes groups

namespace Assembly

def addGroup (a : Assembly) (g : String × Coverage) : Assembly :=
  let (_, a) := a.className g.1
  { a with groups := Dict.set a.groups (Text.lower g.1) g.2 }

/-! ### Glyphs, anchors and scripts -/

def addGlyph (a : Assembly) (g : GlyphEntry) : Except Fault Assembly := do
  let a ← match a.order with
    | none => pure a
    | some names =>
      match names[g.id]? with
      | some n => pure { a with glyphMap := Dict.set a.glyphMap g.name n }
      | none => throw .outOfRange
  match g.kind with
  | none => return a
  | some kind =>
    let a := { a with glyphClasses := Dict.set a.glyphClasses g.name kind }
    match kind with
    | .mark => return { a with marks := if a.marks.contains g.name then a.marks else a.marks ++ [g.name] }
    | .ligature => return { a with ligatures := Dict.set a.ligatures g.name g.components }
    | _ => return a

def markStart : String := "MARK_"

def addAnchor (a : Assembly) (e : AnchorEntry) : Assembly :=
  match Text.dropStart? markStart.toList e.name.toList with
  | some rest =>
    let (cls, a) := a.className (String.ofList rest)
    { a with markClasses := Dict.set a.markClasses (e.glyph, e.name) cls }
  | none =>
    let place (l : List (Int × Int × Int)) : List (Int × Int × Int) := Dict.set l e.component (e.x, e.y)
    { a with anchors := Dict.alter a.anchors e.glyph [] fun l => Dict.alter l e.name [] place }

def addSetting (a : Assembly) (name : String) : Assembly :=
  if Text.hasStart "COMPILER_" name && !a.settings.contains name then { a with settings := a.settings ++ [name] }
  else a

/-- The lookups of a feature: the part of a name before a backslash counts, once. -/
def lookupNames (f : FeatureEntry) : List String :=
  Text.distinct (f.lookups.map fun l => String.ofList (l.toList.takeWhile (· != '\\')))

def addFeature (script language : String) (a : Assembly) (f : FeatureEntry) : Except Fault Assembly := do
  let scripts := (Dict.get? a.features f.tag).getD []
  if Dict.has ((Dict.get? scripts script).getD []) language then throw .brokenPromise
  return { a with
    features := Dict.alter a.features f.tag [] fun s => Dict.alter s script [] fun l =>
      Dict.set l language (lookupNames f) }

def addScript (a : Assembly) (s : ScriptEntry) : Except Fault Assembly :=
  s.languages.foldlM (fun a l => l.features.foldlM (addFeature s.tag l.tag) a) a

/-- Everything but groups, which come before, and lookups, which come after. -/
def addEntry (a : Assembly) : Entry → Except Fault Assembly
  | .glyph g => a.addGlyph g
  | .anchor e => .ok (a.addAnchor e)
  | .setting n => .ok (a.addSetting n)
  | .script s => a.addScript s
  | .group _ | .lookup _ => .ok a

/-! ### Lookups -/

def group (a : Assembly) (name : String) : Except Fault ChoiceSlot :=
  match Dict.get? a.groups (Text.lower name) with
  | some members => .ok (members.map Choice.ofMember)
  | none => .error .notFound

mutual
def slot (a : Assembly) : Item → Except Fault ChoiceSlot
  | .glyph g => .ok [.name g]
  | .group g => a.group g
  | .range first last => .ok [.name first, .name last]
  | .list items => a.choices items

/-- The members of a list within a coverage; a range stands as one. -/
def choices (a : Assembly) : List Item → Except Fault ChoiceSlot
  | [] => .ok []
  | .range first last :: rest => do return .span first last :: (← a.choices rest)
  | item :: rest => do
    let s ← a.slot item
    return .several s :: (← a.choices rest)
end

def slots (a : Assembly) (c : Coverage) : Except Fault (List ChoiceSlot) := c.mapM a.slot

def side (a : Assembly) (l : List Coverage) : Except Fault (List ChoiceSlot) := do
  return (← l.mapM a.slots).flatten

def flags (l : LookupEntry) : Nat :=
  (if l.rightToLeft then 1 else 0) + (if l.skipBases then 2 else 0) + (if l.marks == .skipped then 8 else 0)

/-- Both sides of each context, and whether it is excluded. A lookup without contexts applies
everywhere. -/
def contexts (a : Assembly) (l : LookupEntry) : Except Fault (List (List ChoiceSlot × List ChoiceSlot × Bool)) :=
  if l.contexts.isEmpty then .ok [([], [], false)]
  else l.contexts.mapM fun c => do return (← a.side c.left, ← a.side c.right, c.excluded)

def rule (a : Assembly) (context : List ChoiceSlot × List ChoiceSlot × Bool) (pair : Coverage × Coverage) :
    Except Fault (Option RuleForm) := do
  if pair.1.isEmpty || pair.2.isEmpty then return none
  let input ← a.slots pair.1
  let replacement ← a.slots pair.2
  if context.2.2 then throw .undefinedName
  return some { before := context.1, input, after := context.2.1, replacement }

/-- Positionings give no rules. They can be taken only where they apply everywhere, without
extension lookups. -/
def checkPositioning (a : Assembly) (context : List ChoiceSlot × List ChoiceSlot × Bool) : Except Fault Unit := do
  let (left, right, excluded) := context
  if a.settings.contains "COMPILER_USEEXTENSIONLOOKUPS" then throw .unsetName
  if excluded then throw .unsetName
  if !left.isEmpty || !right.isEmpty then throw .undefinedName

def rules (a : Assembly) (l : LookupEntry) : Except Fault (List RuleForm) := do
  let contexts ← a.contexts l
  match l.action with
  | .substitution pairs =>
    let parts ← contexts.mapM fun c => pairs.mapM (a.rule c)
    return (parts.flatten.filterMap id)
  | .positioning =>
    contexts.forM a.checkPositioning
    return []

/-- A lookup becomes a routine. Parts of a lookup, which have a backslash in their names, are not
supported. -/
def addLookup (a : Assembly) (l : LookupEntry) : Except Fault Assembly := do
  let attachment ← match l.marks with
    | .attached g => (a.group g).map some
    | _ => pure none
  let filter ← match l.marks with
    | .filtered g => (a.group g).map some
    | _ => pure none
  if l.name.toList.contains '\\' then
    let base := String.ofList (l.name.toList.takeWhile (· != '\\'))
    if a.routines.any (sameName ·.name base) then throw .missingPart else throw .undefinedName
  let rules ← a.rules l
  return { a with
    routines := a.routines ++ [{ name := l.name, flags := flags l, filter, attachment, rules }] }

/-! ### The book -/

def names (s : ChoiceSlot) : Slot := s.map Choice.text

def RuleForm.toRule (r : RuleForm) : Rule :=
  .ofBody (.substitution
    { input := some (r.input.map names), replacement := some (r.replacement.map names),
      before := r.before.map names, after := r.after.map names })

def addRoutine (b : Book) (r : RoutineForm) : Book :=
  let (id, b) := b.addRoutine
    { name := some r.name, flags := .bits r.flags, markFilteringSet := r.filter.map names,
      markAttachmentSet := r.attachment.map names }
  let b := { b with order := b.order ++ [id] }
  r.rules.foldl (fun b f => b.appendRule id (RuleForm.toRule f)) b

def uses (a : Assembly) : List (String × LanguageSystem × String) :=
  a.features.flatMap fun (tag, scripts) => scripts.flatMap fun (script, languages) =>
    languages.flatMap fun (language, lookups) => lookups.map fun l => (tag, (script, language), l)

def languages (a : Assembly) : List (String × List LanguageSystem) :=
  a.uses.foldl (fun d (tag, language, _) => Dict.alter d tag [] (· ++ [language])) []

def toBook (a : Assembly) : Except Fault Book := do
  let b : Book :=
    { namedClasses := a.groups.map fun (n, c) => (n, names (c.map Choice.ofMember))
      glyphClasses := a.glyphClasses.map fun (g, k) => (g, some k.text) }
  let b := a.routines.foldl addRoutine b
  a.uses.foldlM (fun b (tag, _, lookup) => do
    let ref ← b.resolve (Reference.make b (some lookup) none)
    return b.addFeature tag [.ref ref]) b

end Assembly

/-- The rules of a project, for a font with the given glyphs. -/
def Project.assemble (p : Project) (order : Option (List String)) : Except Fault (Assembly × Book) := do
  let groups ← p.groups
  let a : Assembly := groups.foldl Assembly.addGroup { order }
  let a ← p.foldlM Assembly.addEntry a
  let a ← p.foldlM (fun a e => match e with
    | .lookup l => a.addLookup l
    | _ => pure a) a
  return (a, ← a.toBook)

def read (source : String) (order : Option (List String)) : Except Fault (Assembly × Book) := do
  (← Project.parse source).assemble order

end GlyphRules.Volt
