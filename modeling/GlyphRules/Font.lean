import GlyphRules.Fault
import GlyphRules.Number.Basic

/-! The font that rules are written for: its glyphs in order, with widths,
characters, categories, anchors and outlines. -/
namespace GlyphRules

/-- A named point of a glyph. -/
structure Anchor where
  name : String
  x : Number
  y : Number

abbrev Contour := List (Number × Number)

structure Glyph where
  name : String
  width : Number := 0
  unicodes : List Nat := []
  category : Option String := none
  exported : Bool := true
  anchors : List Anchor := []
  contours : List Contour := []

structure Font where
  glyphs : List Glyph
deriving Inhabited

namespace Font

def names (f : Font) : List String := f.glyphs.map (·.name)

def find? (f : Font) (name : String) : Option Glyph := f.glyphs.find? (·.name == name)

def get (f : Font) (name : String) : Except Fault Glyph :=
  (f.find? name).elim (.error .notFound) .ok

def has (f : Font) (name : String) : Bool := f.glyphs.any (·.name == name)

def exported (f : Font) : List String := (f.glyphs.filter (·.exported)).map (·.name)

/-- The last glyph that claims the character. Character zero always stands for
`.notdef`, or for the first glyph. -/
def glyphFor? (f : Font) (code : Nat) : Option String :=
  if code == 0 then
    if f.has ".notdef" then some ".notdef" else (f.glyphs.head?).map (·.name)
  else (f.glyphs.reverse.find? (·.unicodes.contains code)).map (·.name)

/-- The glyph of a character, or the one that stands for unknown characters. -/
def glyphOrNotdef (f : Font) (code : Nat) : Except Fault String :=
  match f.glyphFor? code with
  | some g => .ok g
  | none =>
    match f.glyphFor? 0 with
    | some g => .ok g
    | none => .error .outOfRange

/-- The first character of a glyph, zero if it has none. -/
def codepointOf (f : Font) (name : String) : Nat :=
  match f.find? name with
  | some g => g.unicodes.headD 0
  | none => 0

end Font
end GlyphRules
