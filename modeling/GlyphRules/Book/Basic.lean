import GlyphRules.Rule.Basic
import GlyphRules.Step

/-! The book of a font's rules.

A `Book` holds all routines and rules under numbers, and says which routines are in force, in which
order, and which features call them. Two routines may share a rule and see its changes. An `Act` is
a step on a book that may fail; what it changed before stays changed. -/
namespace GlyphRules

/-- What a routine holds: rules, or other routines whose rules count as its own. Nothing
is known of a missing routine. -/
inductive RoutineContent where
  | rules (ids : List RuleId)
  | extension (routines : List RoutineId)
  | missing
deriving DecidableEq

/-- A group of rules that is run as one. -/
structure Routine where
  name : Option String := some ""
  content : RoutineContent := .rules []
  flags : Flags := .bits 0
  languages : Languages := .pairs []
  markFilteringSet : Option (List String) := none
  markAttachmentSet : Option (List String) := none
  comments : List String := []
  address : Address := .none
  usecount : Int := 0
  /-- The chains that call the routine, as last counted. -/
  usedIn : List RuleId := []
  markFilteringClass : Option String := none
  markAttachmentClass : Option String := none

def Routine.withRules (r : Routine) (ids : List RuleId) : Routine :=
  match r.content with
  | .rules _ => { r with content := .rules ids }
  | .extension _ | .missing => r

def Routine.unmarked (r : Routine) : Routine := { r with usedIn := [] }

def Routine.noteUser (r : Routine) (id : RuleId) : Routine :=
  if r.usedIn.contains id then r else { r with usedIn := r.usedIn ++ [id] }

def Routine.usedAgain (r : Routine) : Routine := { r with usecount := r.usecount + 1 }

/-- A scratch counter: unset, a number, or something that cannot be counted. -/
inductive Counter where
  | unset
  | at (n : Int)
  | unusable
deriving DecidableEq

structure Book where
  /-- Every routine, by number. -/
  routines : Array Routine := #[]
  /-- Every rule, by number. -/
  rules : Array Rule := #[]
  /-- The routines in force. -/
  order : List RoutineId := []
  features : List (String × List Lookup) := []
  namedClasses : List (String × List String) := []
  anchors : List (String × List (String × Point)) := []
  glyphClasses : List (String × Option String) := []
  /-- How many symbols of each category have been made. -/
  symbols : List (String × Int) := []
  /-- The number of the last class that was made for a long slot. -/
  classIndex : Counter := .unset
  /-- The mark classes that have been written. -/
  markClassesDone : List (Option String × List String) := []
  /-- The number of the last class that was made for a routine's marks. -/
  markIndex : Nat := 0
  usageMarked : Bool := false
  /-- The languages of each script, as last collected. -/
  scripts : List (String × List String) := []
  warnings : List String := []

abbrev Act := Step Book

namespace Book

def warn (b : Book) (text : String) : Book := { b with warnings := b.warnings ++ [text] }

def routine (b : Book) (i : RoutineId) : Routine := b.routines.getD i {}

def rule (b : Book) (i : RuleId) : Rule := b.rules.getD i default

def ruleIdsWithin (b : Book) : Nat → RoutineId → List RuleId
  | 0, _ => []
  | fuel + 1, i =>
    match (b.routine i).content with
    | .rules ids => ids
    | .extension rs => rs.flatMap (b.ruleIdsWithin fuel)
    | .missing => []

def ruleIds (b : Book) (i : RoutineId) : List RuleId := b.ruleIdsWithin (b.routines.size + 1) i

def rulesOf (b : Book) (i : RoutineId) : List Rule := (b.ruleIds i).map b.rule

def alterRoutine (b : Book) (i : RoutineId) (f : Routine → Routine) : Book :=
  { b with routines := b.routines.modify i f }

def alterRule (b : Book) (i : RuleId) (f : Rule → Rule) : Book :=
  { b with rules := b.rules.modify i f }

def addRoutine (b : Book) (r : Routine) : RoutineId × Book :=
  (b.routines.size, { b with routines := b.routines.push r })

def addRule (b : Book) (r : Rule) : RuleId × Book :=
  (b.rules.size, { b with rules := b.rules.push r })

/-- The place of a routine among those in force. -/
def indexOf? (b : Book) (i : RoutineId) : Option Nat := b.order.idxOf? i

def setRules (b : Book) (i : RoutineId) (ids : List RuleId) : Book := b.alterRoutine i (·.withRules ids)

def appendRule (b : Book) (i : RoutineId) (rule : Rule) : Book :=
  let (id, b) := b.addRule rule
  b.setRules i (b.ruleIds i ++ [id])

def setCalls (b : Book) (i : RuleId) (calls : Calls) : Book :=
  match (b.rule i).group? with
  | some g => { b with rules := b.rules.map fun r => if r.group? == some g then r.withCalls calls else r }
  | none => b.alterRule i (·.withCalls calls)

def gensym (b : Book) (category : String) : String × Book :=
  let n := (Dict.get? b.symbols category).getD 0 + 1
  (category ++ toString n, { b with symbols := Dict.set b.symbols category n })

def cleared (b : Book) : Book :=
  { routines := b.routines, rules := b.rules, markIndex := b.markIndex, warnings := b.warnings }

/-- The contents of this book with those of another added; both have the same routines and rules. -/
def combine (b other : Book) : Book :=
  { other.cleared with
    order := b.order ++ other.order
    features := Dict.merge b.features other.features
    namedClasses := Dict.merge b.namedClasses other.namedClasses
    anchors := Dict.merge b.anchors other.anchors
    symbols := Dict.merge b.symbols other.symbols
    glyphClasses := Dict.merge b.glyphClasses other.glyphClasses }

def routineNamed? (b : Book) (name : Option String) : Option RoutineId :=
  b.order.find? fun i => (b.routine i).name == name

end Book
end GlyphRules
