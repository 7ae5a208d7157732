import GlyphRules.Rule.Basic
import GlyphRules.Text.Normal

/-! Characters and glyphs on their way through the shaper.

An item starts as a character and becomes a glyph. What later steps find out about it is absent
until they have run. -/
namespace GlyphRules.Shaping

/-! ### Characters -/

/-- What is known about characters: named properties of each. -/
structure Characters where
  entries : List (Nat × List (String × String)) := []

namespace Characters

def properties (c : Characters) (code : Nat) : List (String × String) :=
  (Dict.get? c.entries code).getD []

def get? (c : Characters) (code : Nat) (property : String) : Option String :=
  let ps := c.properties code
  match ps.find? (·.1 == property) with
  | some (_, v) => some v
  | none =>
    if property == "Joining_Group" && ps.any (·.1 == "Joining_Type") then some "No_Joining_Group" else none

def get (c : Characters) (code : Nat) (property : String) : Except Fault String :=
  (c.get? code property).elim (.error .notFound) .ok

end Characters

/-! ### Items -/

/-- The category of a character in its syllable. The reph has a mark instead of a category. -/
inductive SyllabicCategory where
  | named (name : String)
  | reph
deriving DecidableEq

/-- The places of an Indic syllable, from its start to its end. -/
inductive Place where
  | start
  | reph
  | preMatra
  | preConsonant
  | base
  | afterMain
  | above
  | beforeSub
  | below
  | afterSub
  | beforePost
  | post
  | afterPost
  | final
  | modifier
  | stop
deriving DecidableEq

def Place.number (p : Place) : Nat := p.ctorIdx

/-- How one item hangs on another: by an anchor or by cursive joining. -/
inductive AttachKind where
  | mark
  | cursive
deriving DecidableEq

/-- What is set when an item becomes a glyph. -/
structure GlyphState where
  /-- The number of the glyph in the font; minus one if it is not there. -/
  gid : Int
  substituted : Bool := false
  ligated : Bool := false
  multiplied : Bool := false
  position : ValueRecord

structure Item where
  codepoint : Option Nat := none
  glyph : Option String := none
  category? : Option String := none
  state : Option GlyphState := none
  /-- Which features pass the item over. Items split from one glyph have their masks in
  common; they have the same `origin`. -/
  masks : List (String × Bool) := []
  origin : Nat := 0
  syllable : Option String := none
  syllableIndex : Option Int := none
  syllabicCategory : Option SyllabicCategory := none
  positionalCategory : Option String := none
  place : Option Place := none
  joining : Option String := none
  attachKind : Option AttachKind := none
  /-- How far away the item is that this one hangs on, once known; `some none` when resolved. -/
  attachChain : Option (Option Int) := none
deriving Inhabited

namespace Item

def needState (i : Item) : Except Fault GlyphState :=
  i.state.elim (.error .missingPart) .ok

def position (i : Item) : Except Fault ValueRecord := do return (← i.needState).position

def category (i : Item) : Except Fault String :=
  i.category?.elim (.error .missingPart) .ok

def setPosition (i : Item) (p : ValueRecord) : Item :=
  { i with state := i.state.map fun s => { s with position := p } }

def isMasked (i : Item) (feature : String) : Bool :=
  (Dict.get? i.masks feature).getD false

def categoryName (i : Item) : Except Fault (Option String) :=
  match i.syllabicCategory with
  | none => .error .missingPart
  | some (.named n) => .ok (some n)
  | some .reph => .ok none

def placeOf (i : Item) : Except Fault Place :=
  i.place.elim (.error .missingPart) .ok

end Item
end GlyphRules.Shaping
