import GlyphRules.Tool.Constraints
import GlyphRules.Tool.Cursive
import GlyphRules.Tool.Shape
import GlyphRules.Exchange

/-! The command line: the name of a tool, and what the tool takes.

Files are those that the arguments name. A font is given by a record of its tables, its glyphs and
what is known about characters. -/
namespace GlyphRules.Tool

structure Entry where
  name : String
  run : Desk → Job Unit

def catalogue : List Entry :=
  [⟨"commands", commands⟩, ⟨"tables", tables⟩, ⟨"listing", listing⟩, ⟨"project", project⟩,
   ⟨"features", features⟩, ⟨"merge", merge⟩, ⟨"anchors", anchors⟩, ⟨"shape", shape⟩, ⟨"coverage", coverage⟩,
   ⟨"constraints", constraints⟩, ⟨"cursive", cursive⟩]

def find? (name : String) : Option Entry := catalogue.find? (·.name == name)

/-- The files that some tools read without being told. -/
def standingFiles : List String := ["Scripts.txt", "cursive.xml"]

/-- The values of arguments, also of those that follow an equals sign. -/
def namesIn (args : List String) : List String :=
  args ++ args.filterMap fun a => (Argument.atEquals a.toList).2

def readFiles : List String → IO (List (String × String))
  | [] => return []
  | name :: rest => do
    let found ← try some <$> IO.FS.readFile name catch _ => pure none
    let others ← readFiles rest
    return (found.map fun text => (name, text)).toList ++ others

def fontAmong (files : List (String × String)) : Option (String × Data) :=
  files.findSome? fun (name, text) =>
    match Data.parse text with
    | .ok d => if d.has "tables" then some (name, d) else none
    | .error _ => none

def deskOf (name : String) (args : List String) (files : List (String × String)) : Desk :=
  match fontAmong files with
  | none => { name, args, files }
  | some (file, d) =>
    { name, args, files, fontFile := some file, tables := Exchange.readFontTables (d.get "tables")
      project := (d.get "project").asText?, font := Exchange.readFont (d.get "font")
      characters := Exchange.readCharacters (d.get "characters") }

def runTool (entry : Entry) (args : List String) : IO UInt32 := do
  let files ← readFiles (Text.distinct (namesIn args ++ standingFiles))
  let (ending, report) := (entry.run (deskOf entry.name args files)).run {}
  IO.print report.printed
  report.log.forM IO.eprintln
  report.warnings.forM fun w => IO.eprintln ("# [warning] " ++ w)
  match ending with
  | .ok _ => return 0
  | .error (.exit code) => return code.toUInt32
  | .error (.fault f) =>
    IO.eprintln (f.words.getD "the tool failed")
    return 1

end GlyphRules.Tool

def main (args : List String) : IO UInt32 := do
  match args with
  | name :: rest =>
    match GlyphRules.Tool.find? name with
    | some entry => GlyphRules.Tool.runTool entry rest
    | none =>
      IO.eprintln ("no such tool: " ++ name)
      return 2
  | [] =>
    IO.eprintln ("tools: " ++ ", ".intercalate (GlyphRules.Tool.catalogue.map (·.name)))
    return 2
