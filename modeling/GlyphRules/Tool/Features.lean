import GlyphRules.Tool.Desk
import GlyphRules.Data.Reader
import GlyphRules.Book.Optimise
import GlyphRules.Feature.Gather
import GlyphRules.Command.Run
import GlyphRules.FontDame.Assembly
import GlyphRules.Volt.Assembly

/-! Tools that write features: from commands, from the tables of a font, from a FontDame listing
and from a VOLT project. -/
namespace GlyphRules.Tool

/-! ### From commands -/

def commandUsage : Usage where
  switches :=
    [{ key := "load", words := ["--load"] },
     { key := "level", words := ["-O"], need := .maybeValue, isNumber := true },
     { key := "master", words := ["--master"], need := .value },
     { key := "command", words := ["-c"], need := .value },
     { key := "noCategories", words := ["--omit-gdef"] }]
  operands := [{ key := "font" }, { key := "file", isOptional := true }]

def commandsOf (g : Given) : Command.Craft Unit :=
  match g.text? "command", g.value? "file" with
  | some text, _ => Command.Craft.runText (if Text.hasEnd ";" text then text else text ++ ";")
  | none, some file => Command.Craft.runFile file
  | none, none => throw .wrongKind

def baseName (path : String) : String :=
  String.ofList (path.toList.reverse.takeWhile (· != '/')).reverse

def commands (d : Desk) : Job Unit := do
  let g ← Job.options commandUsage d
  let font := (g.value? "font").getD ""
  if g.has "load" && Text.hasEnd "tf" font then
    let _ ← Job.rulesOf d font
    Job.fail .undefinedName
  let (r, w) := (commandsOf g).run (Command.Workshop.start d.font d.plainFiles)
  Job.warn w.book.warnings
  Job.ofExcept r
  let level := if g.has "level" then (g.number? "level").getD 1 else 0
  let (_, b) ← Job.onBook w.book (Optimise.book level)
  Job.printFeatures b (!g.has "noCategories")
  if w.fontModified then Job.warn ["Modified font written on modified-" ++ baseName font]

/-! ### From the tables of a font -/

/-- Names given to routines in a file of settings; none if the file holds no record. -/
def readNames (d : Desk) (file : String) : Except Fault (Option (List (String × String))) := do
  match ← Data.parse (← d.read file) with
  | .record fields => return some (fields.filterMap fun (k, v) => v.asText?.map fun t => (k, t))
  | _ => return none

def tableUsage : Usage where
  switches :=
    [{ key := "categories", words := ["--gdef"] }, indexSwitch,
     { key := "noLookups", words := ["--no-lookups"] },
     { key := "config", words := ["--config"], need := .value },
     { key := "level", words := ["-O", "--optimize"], need := .value, isNumber := true }]
  operands := [{ key := "font" }]

/-- Write the features of a font's tables. Settings that are no record give no names, and fail as
soon as a lookup asks for one. -/
def tables (d : Desk) : Job Unit := do
  let g ← Job.options tableUsage d
  let names ← match g.text? "config" with
    | some file => Job.ofExcept (readNames d file)
    | none => pure (some [])
  let font := (g.value? "font").getD ""
  if isUnpicked font g then Job.exit 1
  Job.printFeatures (← Job.rulesOf d font names (g.has "categories"))

/-- Anchors cannot be listed: features hold references, and not the rules themselves. -/
def anchors (d : Desk) : Job Unit := do
  let g ← Job.options { operands := [{ key := "font" }] } d
  let b ← Job.rulesOf d ((g.value? "font").getD "")
  if Dict.has b.features "mark" then Job.fail .missingPart else Job.fail .notFound

/-- Features cannot be merged into a font: the name of a font is not a font. -/
def merge (d : Desk) : Job Unit := do
  let g ← Job.options
    { switches := [indexSwitch, { key := "output", words := ["-o"], need := .value }]
      operands := [{ key := "font" }, { key := "file", isOptional := true }] } d
  let font := (g.value? "font").getD ""
  if isUnpicked font g then Job.exit 1
  let _ ← Job.ofExcept (d.openFont font)
  Job.fail .missingPart

/-- Feature files cannot be written anew: their reader has no such name. -/
def features (_ : Desk) : Job Unit := Job.fail .noImport

/-! ### From a listing -/

def linesWithEnds : List Char → List Char → List String
  | [], [] => []
  | line, [] => [String.ofList line.reverse]
  | line, c :: cs =>
    if c == '\n' then String.ofList ('\n' :: line).reverse :: linesWithEnds [] cs
    else linesWithEnds (c :: line) cs

def linesOf (text : String) : List String := linesWithEnds [] text.toList

def listingUsage : Usage where
  switches :=
    [{ key := "config", words := ["--config"], need := .value },
     { key := "font", words := ["--font"], need := .value },
     { key := "classes", words := ["--classfile"], need := .value },
     { key := "optimise", words := ["--optimize"] }]
  operands := [{ key := "file" }]

def checkClasses (text : String) : Except Fault Unit := do
  let source ← Feature.read text [] []
  for (_, c) in source.classes do
    match c with
    | ⟨.marks _, _⟩ | ⟨_, false⟩ => throw .missingPart
    | _ => pure ()

/-- Write the features of a listing, in which long slots get classes. After a file of classes
their numbers start high. -/
def listing (d : Desk) : Job Unit := do
  let g ← Job.options listingUsage d
  if let some file := g.text? "config" then
    let _ ← Job.ofExcept (do Data.parse (← d.read file))
  let glyphs ← match g.text? "font" with
    | some file => do pure (← Job.ofExcept (d.openFont file)).glyphs
    | none => pure []
  let source ← Job.ofExcept (d.read ((g.value? "file").getD ""))
  let (r, s) := FontDame.read (linesOf source) glyphs
  Job.put s.printed
  Job.warn s.warnings
  let b ← Job.ofExcept r
  let b ← match g.text? "classes" with
    | some file => do
      Job.ofExcept (do checkClasses (← d.read file))
      pure { b with classIndex := .at 999 }
    | none => pure b
  let (_, b) ← Job.onBook b (Optimise.book (if g.has "optimise" then 2 else 1))
  Job.printFeatures b

/-! ### From a project -/

def projectUsage : Usage where
  switches := [{ key := "quiet", words := ["-q", "--quiet"] }, { key := "traceback", words := ["--traceback"] }]
  operands := [{ key := "file" }, { key := "output" }]

def project (d : Desk) : Job Unit := do
  let g ← Job.options projectUsage d
  let file := (g.value? "file").getD ""
  let (source, order) ← match d.openFont file with
    | .ok t =>
      match d.project with
      | some source => pure (source, some t.glyphs)
      | none => Job.exit 1
    | .error .unreadableFont => do pure (← Job.ofExcept (d.read file), none)
    | .error f => Job.fail f
  let (_, b) ← Job.ofExcept (Volt.read source order)
  Job.printFeatures b

end GlyphRules.Tool
