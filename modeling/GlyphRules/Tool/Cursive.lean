import GlyphRules.Tool.Desk
import GlyphRules.Markup.Reader

/-! Cursive joining from a dump of a table.

Glyphs are also put into classes by how far they drop from entry to exit: for each form, ten equal
steps from the smallest drop to the greatest, and a last class for the greatest itself. -/
namespace GlyphRules.Tool

structure CursiveGlyph where
  name : String
  entry : Option (Int × Int)
  exit : Option (Int × Int)

/-- How far a glyph drops; an end that is missing lies on the base line. -/
def CursiveGlyph.drop (g : CursiveGlyph) : Int :=
  ((g.entry.map (·.2)).getD 0) - ((g.exit.map (·.2)).getD 0)

def valueOf (n : Markup.Node) : Except Fault String :=
  (n.get? "value").elim (.error .notFound) .ok

def coordinate (tag : String) (anchor : Markup.Node) : Except Fault Int := do
  match anchor.find? tag with
  | some n => Number.read (← valueOf n)
  | none => throw .missingPart

def anchorOf (tag : String) (record : Markup.Node) : Except Fault (Option (Int × Int)) := do
  match record.find? tag with
  | none => return none
  | some a =>
    let y ← coordinate "YCoordinate" a
    let x ← coordinate "XCoordinate" a
    return some (x, y)

def readRecords (names : List String) : List Markup.Node → Nat → Except Fault (List CursiveGlyph)
  | [], _ => .ok []
  | record :: rest, i => do
    let entry ← anchorOf "EntryAnchor" record
    let exit ← anchorOf "ExitAnchor" record
    let some name := names[i]? | throw .outOfRange
    return { name, entry, exit } :: (← readRecords names rest (i + 1))

def readCursive (root : Markup.Node) : Except Fault (List CursiveGlyph) := do
  let glyphs := (root.findAll "Coverage").flatMap (·.findAll "Glyph")
  let names ← glyphs.mapM valueOf
  readRecords names (root.findAll "EntryExitRecord") 0

/-! ### Classes -/

/-- The ends of ten equal steps from the smallest value to the greatest. Without values the steps
go from zero to one; around a single value they go half a unit either way. -/
def stepEnds (values : List Int) : List Float :=
  let (low, high) : Float × Float :=
    match values with
    | [] => (0.0, 1.0)
    | v :: vs =>
      let low := Float.ofInt (vs.foldl min v)
      let high := Float.ofInt (vs.foldl max v)
      if low == high then (low - 0.5, high + 0.5) else (low, high)
  let step := (high - low) / 10.0
  (List.range 10).map (fun i => i.toFloat * step + low) ++ [high]

/-- The step of a value: how many ends it has reached, less one. -/
def stepOf (ends : List Float) (value : Int) : Nat := (ends.filter (· ≤ Float.ofInt value)).length - 1

def middleOf (ends : List Float) (step : Nat) : Float :=
  match ends[step]?, ends[step + 1]? with
  | some a, some b => (a + b) / 2.0
  | some a, none => a
  | none, _ => 0.0

def printClasses (drops : List (String × Int)) (form : String) : Job Unit := do
  let drops := drops.filter fun (name, _) => Text.occursIn form.toList name.toList
  let ends := stepEnds (drops.map (·.2))
  for (step, names) in groupBy (drops.map fun (name, drop) => (name, stepOf ends drop)) do
    let cls : Feature.Statement := .glyphClass (form ++ "_" ++ toString step) (.members names)
    Job.printLine (← Job.ofExcept cls.text)
    let middle := (Number.real (middleOf ends step)).truncate
    Job.printLine ("# average drop = " ++ toString middle ++ "\n")

def cursive (d : Desk) : Job Unit := do
  let source ← Job.ofExcept (d.read "cursive.xml")
  let root ← match Markup.parse source with
    | .ok n => pure n
    | .error _ => Job.fail .ungrammatical
  let glyphs ← Job.ofExcept (readCursive root)
  let drops := (glyphs.map fun g => (g.name, g.drop)).mergeSort fun a b => decide (a.2 ≤ b.2)
  for form in ["Med", "Ini", "Fin"] do
    printClasses drops form
  Job.printLine "feature curs \x7b\n"
  Job.printLine "lookupflag IgnoreMarks;\n"
  for g in glyphs do
    let point (p : Option (Int × Int)) : Option Point := p.map fun (x, y) => (.fixed (.int x), .fixed (.int y))
    let joining : Feature.Statement := .cursive (.name g.name) (point g.entry) (point g.exit)
    Job.printLine (← Job.ofExcept joining.text)
  Job.printLine "\x7d curs;"

end GlyphRules.Tool
