import GlyphRules.Font

/-! Measures of glyphs.

A glyph without outline has no bounds: its side bearings are unknown and its extremes count as zero.
Where glyphs are joined by the anchors `entry` and `exit`, the run is how far the pen goes from one
to the other, the rise how much higher it ends. -/
namespace GlyphRules

/-- The least box around a glyph. -/
structure Bounds where
  left : Number
  bottom : Number
  right : Number
  top : Number

namespace Glyph

/-- The bounds of all points; nothing without points. -/
def bounds? (g : Glyph) : Option Bounds :=
  match g.contours.flatten with
  | [] => none
  | (x, y) :: more =>
    some (more.foldl (fun b (x, y) =>
      ⟨Number.min b.left x, Number.min b.bottom y, Number.max b.right x, Number.max b.top y⟩) ⟨x, y, x, y⟩)

def leftMargin? (g : Glyph) : Option Number := g.bounds?.map (·.left)

def rightMargin? (g : Glyph) : Option Number := g.bounds?.map fun b => g.width - b.right

def anchor? (g : Glyph) (name : String) : Option Anchor := g.anchors.find? (·.name == name)

/-- How much higher a joined glyph starts than it ends. -/
def rise (g : Glyph) : Number :=
  ((g.anchor? "entry").map (·.y)).getD 0 - ((g.anchor? "exit").map (·.y)).getD 0

/-- How far the pen goes; without an entry it starts at the width. -/
def run (g : Glyph) : Number :=
  ((g.anchor? "entry").map (·.x)).getD g.width - ((g.anchor? "exit").map (·.x)).getD 0

end Glyph

/-- What can be measured on a glyph. -/
inductive Metric where
  | width | lsb | rsb | xMin | xMax | yMin | yMax | rise | run | fullwidth
deriving DecidableEq

namespace Metric

def named : List (String × Metric) :=
  [("width", width), ("lsb", lsb), ("rsb", rsb), ("xMin", xMin), ("xMax", xMax), ("yMin", yMin), ("yMax", yMax),
    ("rise", rise), ("run", run), ("fullwidth", fullwidth)]

/-- The measure of a glyph; side bearings are unknown without an outline. -/
def of (m : Metric) (g : Glyph) : Option Number :=
  let side (f : Bounds → Number) : Option Number := some ((g.bounds?.map f).getD 0)
  match m with
  | width => some g.width
  | lsb => g.leftMargin?
  | rsb => g.rightMargin?
  | xMin => side (·.left)
  | xMax => side (·.right)
  | yMin => side (·.bottom)
  | yMax => side (·.top)
  | rise => some g.rise
  | run => some g.run
  | fullwidth => side fun b => b.right - b.left

end Metric

namespace Font

def measure (f : Font) (m : Metric) (name : String) : Except Fault (Option Number) := do
  return m.of (← f.get name)

/-- Glyphs of similar measure, with the measure of each group cut to an integer. Glyphs that
differ in measure cannot be grouped; those that do not are one group, however many are
asked for. -/
def bins (f : Font) (names : List String) (m : Metric) (count : Nat) :
    Except Fault (List (List String × Int)) := do
  let values ← names.mapM (f.measure m)
  if values.isEmpty || count == 0 then throw .badValue
  let values ← values.mapM fun
    | some v => pure v
    | none => throw .wrongKind
  match values with
  | [] => throw .badValue
  | v :: vs => if vs.all (· == v) then return [(names, v.truncate)] else throw .missingPart

def alter (f : Font) (name : String) (change : Glyph → Glyph) : Font :=
  { f with glyphs := f.glyphs.map fun g => if g.name == name then change g else g }

end Font
end GlyphRules
