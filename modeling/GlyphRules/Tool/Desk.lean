import GlyphRules.Tool.Options
import GlyphRules.Layout.Rules
import GlyphRules.Feature.RoutineText
import GlyphRules.Shaping.Session

/-! What tools work with and what they leave behind.

A tool finds its command line, files and a font on a `Desk`. It prints, warns and logs into a
`Report`, and may stop with an exit code or a fault; what it reported stays. -/
namespace GlyphRules.Tool

structure Desk where
  /-- The name under which the tool was called. -/
  name : String := ""
  args : List String := []
  /-- Names and texts of files. -/
  files : List (String × String) := []
  /-- The file that is a font. -/
  fontFile : Option String := none
  tables : Layout.FontTables := {}
  /-- The source of the rules that the font carries along. -/
  project : Option String := none
  /-- The font whose outlines and widths are asked for, under whatever name. -/
  font : Font := ⟨[]⟩
  characters : Shaping.Characters := {}

/-- Every line ends in a line feed alone. -/
def plainLines : List Char → List Char
  | [] => []
  | '\r' :: '\n' :: cs => '\n' :: plainLines cs
  | '\r' :: cs => '\n' :: plainLines cs
  | c :: cs => c :: plainLines cs

namespace Desk

def plainFiles (d : Desk) : List (String × String) :=
  d.files.map fun (name, text) => (name, String.ofList (plainLines text.toList))

def read (d : Desk) (file : String) : Except Fault String :=
  (Dict.get? d.plainFiles file).elim (.error .noFile) .ok

def openFont (d : Desk) (file : String) : Except Fault Layout.FontTables :=
  if d.fontFile == some file then .ok d.tables
  else if Dict.has d.files file then .error .unreadableFont
  else .error .noFile

end Desk

/-- What a tool said. -/
structure Report where
  printed : String := ""
  warnings : List String := []
  log : List String := []

/-- Why a tool stopped early. -/
inductive Stop where
  | exit (code : Nat)
  | fault (f : Fault)
deriving DecidableEq

abbrev Job := ExceptT Stop (StateM Report)

namespace Job

def exit {α : Type} (code : Nat) : Job α := throw (.exit code)

def fail {α : Type} (f : Fault) : Job α := throw (.fault f)

def ofExcept {α : Type} : Except Fault α → Job α
  | .ok a => return a
  | .error f => fail f

def put (text : String) : Job Unit := modify fun r => { r with printed := r.printed ++ text }

def printLine (text : String) : Job Unit := put (text ++ "\n")

def warn (texts : List String) : Job Unit := modify fun r => { r with warnings := r.warnings ++ texts }

def log (texts : List String) : Job Unit := modify fun r => { r with log := r.log ++ texts }

/-- What the command line says; one that is refused ends the tool. -/
def options (u : Usage) (d : Desk) : Job Given :=
  match u.read d.args with
  | some g => return g
  | none => exit 2

def onBook {α : Type} (b : Book) (a : Act α) : Job (α × Book) := do
  let (r, after) := a.on { b with warnings := [] }
  warn after.warnings
  return (← ofExcept r, { after with warnings := [] })

def rulesOf (d : Desk) (file : String) (names : Option (List (String × String)) := some [])
    (categories : Bool := false) : Job Book := do
  let tables ← ofExcept (d.openFont file)
  let (_, b) ← onBook {} (Layout.Act.readTables tables names categories)
  return b

def printFeatures (b : Book) (categories : Bool := true) : Job Unit := do
  let (text, _) ← onBook b (Feature.bookText categories)
  printLine text

end Job

def indexSwitch : Switch := { key := "index", words := ["-i", "--index"], need := .value, isNumber := true }

/-- Whether a file is a collection of fonts and no font of it was picked. -/
def isUnpicked (file : String) (g : Given) : Bool :=
  Text.hasEnd "c" file && (g.number? "index").getD (-1) == -1

end GlyphRules.Tool
