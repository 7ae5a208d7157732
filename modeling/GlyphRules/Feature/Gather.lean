import GlyphRules.Book.Reference
import GlyphRules.Feature.Reader

/-! From a feature file to a book of rules.

The entries of a file are run as a row of events. Rules go to the open routine: that of the last
lookup block, or one opened for rules that stand in a feature on their own. A routine left without
rules is taken out again. -/
namespace GlyphRules.Feature

/-- What happens while a file is run through. -/
inductive Event where
  | openFeature (name : String)
  | closeFeature
  | openLookup (spot : Spot) (name : String)
  | closeLookup
  | call (lookup : String)
  | script (tag : String)
  | language (tag : String)
  | flag (spot : Spot) (value : Int)
  | rule (spot : Spot) (entry : RuleEntry)
  | foreign

mutual
/-- The events of one entry: a block is opened, run through and closed. -/
def Entry.events : Entry → List Event
  | .rule spot entry => [.rule spot entry]
  | .lookup spot name body => .openLookup spot name :: eventsOf body ++ [.closeLookup]
  | .feature name body => .openFeature name :: eventsOf body ++ [.closeFeature]
  | .call lookup => [.call lookup]
  | .script tag => [.script tag]
  | .language tag => [.language tag]
  | .flag spot value => [.flag spot value]
  | .foreign => [.foreign]

def eventsOf : List Entry → List Event
  | [] => []
  | e :: es => e.events ++ eventsOf es
end

structure Gathering where
  book : Book := {}
  marks : List (String × MarkClass) := []
  feature : Option String := none
  /-- The routine that rules go to. -/
  routine : Option RoutineId := none
  flag : Int := 0
  /-- The language system of the rules that follow, and the number of its list. -/
  system : Option LanguageSystem := none
  systemNumber : Nat := 0
  /-- The number of the next routine without a name. -/
  unnamed : Nat := 1

namespace Gathering

/-- The feature that is open, and the open routine if it is in force and has no rules yet. -/
def idle? (s : Gathering) : Option (String × RoutineId) := do
  let feature ← s.feature
  let i ← s.routine
  if (s.book.ruleIds i).isEmpty && s.book.order.contains i then some (feature, i) else none

def dropCall (features : List (String × List Lookup)) (feature : String) : Except Fault (List (String × List Lookup)) :=
  match Dict.get? features feature with
  | some [] => .error .outOfRange
  | some calls => .ok (Dict.set features feature calls.dropLast)
  | none => .ok features

/-- Inside a feature, take out the open routine if it has no rules, with the last call of the
feature. -/
def discardEmpty (s : Gathering) : Except Fault Gathering := do
  let some (feature, i) := s.idle? | return s
  let features ← dropCall s.book.features feature
  return { s with book := { s.book with order := s.book.order.erase i, features } }

def enter (feature : Option String) (book : Book) (r : Routine) : RoutineId × Book :=
  let (i, book) := book.addRoutine r
  match feature with
  | some feature => (i, book.addFeature feature [.bare i])
  | none => (i, { book with order := book.order ++ [i] })

def openRoutine (spot : Spot) (name : Option String) (s : Gathering) : Except Fault Gathering := do
  let s ← s.discardEmpty
  let given := name.getD ""
  let name := if given.isEmpty then "unnamed_routine_" ++ toString s.unnamed else given
  let (i, book) := enter s.feature s.book { name := some name, address := .text spot.text }
  return { s with book, routine := some i, flag := 0, unnamed := if given.isEmpty then s.unnamed + 1 else s.unnamed }

def flagRules (s : Gathering) : Gathering :=
  match s.routine with
  | some i =>
    { s with book := (s.book.ruleIds i).foldl (fun b r => b.alterRule r fun r => { r with flags := .bits s.flag }) s.book }
  | none => s

/-- Flags that differ start a new routine inside a feature. -/
def setFlag (spot : Spot) (value : Int) (s : Gathering) : Except Fault Gathering := do
  if s.routine.isSome && value == s.flag then return s
  if s.feature.isSome then
    return { ← s.flagRules.openRoutine spot none with flag := value }
  else return { s with flag := value }

def named (book : Book) (name : String) : Except Fault RoutineId :=
  match book.routineNamed? (some name) with
  | some i => .ok i
  | none => .error (.refused (.noRoutine name))

def callLookup (name : String) (s : Gathering) : Except Fault Gathering := do
  let i ← named s.book name
  match s.feature with
  | some feature =>
    let s ← s.discardEmpty
    return { s with book := s.book.addFeature feature [.bare i] }
  | none => throw (.refused (.verbatim "Huh?"))

def setSystem (system : LanguageSystem) (s : Gathering) : Gathering :=
  { s with system := some system, systemNumber := s.systemNumber + 1 }

/-! ### Rules -/

def ruleAt (spot : Spot) (s : Gathering) (body : RuleBody) : Rule :=
  let languages := s.system.map fun l => Languages.pairs [l]
  { body, address := .text spot.text, languageGroup := s.system.map fun _ => s.systemNumber
    languages := match body with
      | .attachment _ => some (languages.getD (.pairs []))
      | _ => languages }

def put (spot : Spot) (s : Gathering) (body : RuleBody) : Except Fault Gathering :=
  match s.routine with
  | some i => .ok { s with book := s.book.appendRule i (s.ruleAt spot body) }
  | none => .error .missingPart

/-- A list of pairs as a map: each key once, with its last value. -/
def mapping (keys values : List String) : List (String × String) :=
  (keys.zip values).foldl (fun m (k, v) => Dict.set m k v) []

def rows (glyphs : List String) (columns : List (List String)) : List (String × List String) :=
  let size := glyphs.length
  let columns := columns.map fun c => spread c size
  let full := glyphs.zipIdx.map fun (g, i) => (g, columns.filterMap (·[i]?))
  full.foldl (fun seen row => if seen.any (·.1 == row.1) then seen else seen ++ [row]) []

def attachment (marks : List (String × MarkClass)) (bases : List String) (mark : Option AnchorPoint × String) :
    Except Fault RuleBody := do
  let (anchor, className) := mark
  let point (a : AnchorPoint) : Point := (.int a.x, .int a.y)
  match (Dict.get? marks className).getD {} with
  | { definitions := [(markAnchor, glyphs)] } =>
    let distinct := Text.distinct bases
    let bases ← match anchor with
      | some a => pure (distinct.map fun g => (g, point a))
      | none => if distinct.isEmpty then pure [] else throw .missingPart
    return .attachment { baseName := some className, markName := some className, bases
                         marks := glyphs.map fun g => (g, point markAnchor) }
  | _ => throw .brokenPromise

/-- Whether an entry stands for no rule at all, since there is no glyph to act on. -/
def isVoid (marks : List (String × MarkClass)) : RuleEntry → Bool
  | .multiple c _ _ => ((c.glyphs.headD .nothing).members marks).isEmpty
  | _ => false

def bodies (marks : List (String × MarkClass)) (book : Book) (entry : RuleEntry) : Except Fault (List RuleBody) := do
  let members (g : GlyphSet) : List String := g.members marks
  let slots (l : List GlyphSet) : List Slot := l.map members
  let substitution (c : Context) (input replacement : List Slot) : Substitution :=
    { input := some input, replacement := some replacement, before := slots c.before, after := slots c.after }
  let target (c : Context) : List String := (slots c.glyphs).headD []
  let point (a : AnchorPoint) : Point := (.int a.x, .int a.y)
  match entry with
  | .single c new _ =>
    let old := target c
    let m := mapping old (spread (members new) old.length)
    return [.substitution (substitution c [m.map (·.1)] [m.map (·.2)])]
  | .reverse c new =>
    let old := target c
    let m := mapping old (spread (members new) old.length)
    return [.substitution { substitution c [m.map (·.1)] [m.map (·.2)] with reversal := .backward }]
  | .multiple c new _ =>
    return (rows (target c) (slots new)).map fun (g, row) =>
      .substitution (substitution c [[g]] (row.map fun r => [r]))
  | .alternate c new => return [.substitution (substitution c [target c] [members new])]
  | .ligature c new => return [.substitution (substitution c (slots c.glyphs) [[new]])]
  | .chain c calls =>
    let calls ← calls.mapM fun
      | some names => do return some (← names.mapM fun n => do return Lookup.bare (← named book n))
      | none => return none
    return [.chaining { input := some (slots c.glyphs), before := slots c.before, after := slots c.after, calls }]
  | .ignore contexts =>
    return contexts.map fun c =>
      .chaining { input := some (slots c.glyphs), before := slots c.before, after := slots c.after }
  | .adjust c values =>
    let placed := (slots c.glyphs).zip values
    return [.positioning { glyphs := placed.map (·.1), values := placed.map (·.2)
                           before := slots c.before, after := slots c.after }]
  | .pair first second (v, w) each =>
    if each then
      let pairs := (members first).flatMap fun a => (members second).map fun b => (a, b)
      if pairs.isEmpty then throw .unreadableFeatures
      return pairs.map fun (a, b) => .positioning { glyphs := [[a], [b]], values := [v, w] }
    else return [.positioning { glyphs := [members first, members second], values := [v, w] }]
  | .cursive glyphs entry exit =>
    let points (a : Option AnchorPoint) : List (String × Point) :=
      match a with
      | some a => (Text.distinct (members glyphs)).map fun g => (g, point a)
      | none => []
    return [.attachment { baseName := some "cursive_entry", markName := some "cursive_exit"
                          bases := points entry, marks := points exit }]
  | .attach bases pairs => pairs.mapM (attachment marks (members bases))

/-- The rules that are put in a routine for an entry. Of several mark classes in one entry
the last one counts. -/
def counted (entry : RuleEntry) (all : List RuleBody) : Except Fault (List RuleBody) :=
  match entry, all.getLast? with
  | .attach _ _, some last => .ok [last]
  | .attach _ _, none => .error .unsetName
  | _, _ => .ok all

def openFor (spot : Spot) (entry : RuleEntry) (s : Gathering) : Except Fault Gathering :=
  if !isVoid s.marks entry && s.routine.isNone then s.openRoutine spot none else .ok s

def putEntry (spot : Spot) (entry : RuleEntry) (s : Gathering) : Except Fault Gathering := do
  let s ← s.openFor spot entry
  let all ← bodies s.marks s.book entry
  (← counted entry all).foldlM (put spot) s

/-! ### Events -/

def closeFeature (s : Gathering) : Except Fault Gathering := do
  let s ← s.discardEmpty
  return { { s with feature := none, system := none }.flagRules with routine := none }

def step (s : Gathering) : Event → Except Fault Gathering
  | .openFeature name => .ok { s with feature := some name }
  | .closeFeature => s.closeFeature
  | .openLookup spot name => s.openRoutine spot (some name)
  | .closeLookup => .ok s.flagRules
  | .call lookup => s.callLookup lookup
  | .script tag => .ok (s.setSystem (tag, "*"))
  | .language tag =>
    match s.system with
    | some (script, _) => .ok (s.setSystem (script, tag))
    | none => .error .wrongKind
  | .flag spot value => s.setFlag spot value
  | .rule spot entry => s.putEntry spot entry
  | .foreign => .error .missingPart

end Gathering

/-- The listed glyph classes of a file. One that is only another name has no list. -/
def Source.namedClasses (s : Source) : Except Fault (List (String × List String)) := do
  let lists ← s.classes.mapM fun (n, c) =>
    match c with
    | ⟨.marks _, true⟩ => .ok none
    | ⟨g, true⟩ => .ok (some (n, g.members s.marks))
    | ⟨_, false⟩ => .error .missingPart
  return lists.filterMap id

/-- Add the rules of a feature file to a book. The classes of the book are known to the file. -/
def readInto (book : Book) (text : String) (glyphs : List String) : Except Fault Book := do
  let source ← read text glyphs book.namedClasses
  let book := { book with namedClasses := Dict.merge book.namedClasses (← source.namedClasses) }
  let s ← (eventsOf source.entries).foldlM Gathering.step { book, marks := source.marks }
  return s.book

end GlyphRules.Feature
