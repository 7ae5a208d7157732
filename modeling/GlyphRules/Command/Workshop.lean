import GlyphRules.Command.Phrase
import GlyphRules.Book.Reference

/-! The state that commands work on.

Commands write a book of rules for a font, which they may change, too. They know variables, the
verbs that are loaded, and the files beside them. What a command did before it failed stays done. -/
namespace GlyphRules.Command

/-- What a command hands to the block around it. -/
inductive Product where
  | rule (id : RuleId)
  | routine (id : RoutineId)
deriving DecidableEq

inductive Verb where
  | loadPlugin | defineClass | defineClassBinned | condition | feature | featureName | substitute
  | reverseSubstitute | position | chain | anchors | attach | loadAnchors | routine | include | includeFeatures
  | assign | joiningForms | showClass | listClassNames | listClasses | delete | setWidth | setCategory
  | fitMatra | fitMedial | kernToDistance | findLigatures | swap | moveDots | fixOverhang
deriving DecidableEq

structure Workshop where
  book : Book := {}
  font : Font
  fontModified : Bool := false
  vars : Variables := []
  /-- The verbs that are known, by name. -/
  verbs : List (String × Verb) := []
  /-- The files that exist, by name. -/
  files : List (String × String) := []
  /-- The file that was opened last. -/
  file : Option String := none

abbrev Craft := Step Workshop

namespace Craft

variable {α : Type}

def onBook (f : Book → Book) : Craft Unit := modify fun w => { w with book := f w.book }

def warn (text : String) : Craft Unit := onBook (·.warn text)

def noted (n : Noted α) : Craft α := do
  let (r, notes) := n.run []
  onBook fun b => { b with warnings := b.warnings ++ notes }
  ofExcept r

def resolve (s : Selection) : Craft (List String) := do
  let w ← get
  noted (s.resolve w.book.namedClasses w.font)

def resolveAll (l : List Selection) : Craft (List (List String)) := l.mapM resolve

def addRule (r : Rule) : Craft RuleId := do
  let w ← get
  let (id, book) := w.book.addRule r
  set { w with book }
  return id

def addRoutine (r : Routine) : Craft RoutineId := do
  let w ← get
  let (id, book) := w.book.addRoutine r
  set { w with book }
  return id

def routineOf (rules : List Rule) (flags : Int := 0) : Craft RoutineId := do
  let ids ← rules.mapM addRule
  addRoutine { content := .rules ids, flags := .bits flags }

def setClass (name : String) (glyphs : List String) : Craft Unit :=
  onBook fun b => { b with namedClasses := Dict.set b.namedClasses name glyphs }

def read (phrase : Variables → Phrase α) (text : String) : Craft α := do
  ofExcept ((phrase (← get).vars).read text)

def classNamed (name : String) : Craft (List String) := do
  (Dict.get? (← get).book.namedClasses name).elim (throw .notFound) pure

def glyph (name : String) : Craft Glyph := do ofExcept ((← get).font.get name)

end Craft
end GlyphRules.Command
