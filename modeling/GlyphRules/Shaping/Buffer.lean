import GlyphRules.Shaping.Item
import GlyphRules.Book.Basic

/-! The buffer.

A buffer holds items and a view of them: the places of the items that the rule at hand can see.
Rules count places in the view, from the end when they are negative. -/
namespace GlyphRules.Shaping

/-! ### Places and ranges -/

/-- A place in a list of known length; negative places count from the end. -/
def placeIn? (length : Nat) (i : Int) : Option Nat :=
  if 0 ≤ i then (if i < length then some i.toNat else none)
  else if 0 ≤ i + length then some (i + length).toNat else none

def itemAt {α : Type} (l : List α) (i : Int) : Except Fault α :=
  match (placeIn? l.length i).bind fun n => l[n]? with
  | some a => .ok a
  | none => .error .outOfRange

def clampEnd (length : Nat) (i : Int) : Nat :=
  if i < 0 then (i + length).toNat else Nat.min i.toNat length

/-- The items from one place up to another. -/
def range {α : Type} (l : List α) (first last : Int) : List α :=
  let a := clampEnd l.length first
  let b := clampEnd l.length last
  (l.take b).drop a

def replaceRange {α : Type} (l : List α) (first last : Int) (new : List α) : List α :=
  let a := clampEnd l.length first
  let b := Nat.max a (clampEnd l.length last)
  l.take a ++ new ++ l.drop b

/-- The places that a rule can see: all of them, or some. -/
inductive View where
  | whole (size : Nat)
  | chosen (places : List Nat)
deriving DecidableEq

namespace View

def places : View → List Nat
  | whole n => List.range n
  | chosen l => l

def size : View → Nat
  | whole n => n
  | chosen l => l.length

end View

/-- A set of marks that a mask lets through. It may never have been given, or be given as nothing. -/
inductive MarkSet where
  | never
  | nothing
  | glyphs (names : List String)
deriving DecidableEq

def MarkSet.ofOption : Option (List String) → MarkSet
  | none => .nothing
  | some l => .glyphs l

structure Buffer where
  items : List Item := []
  view : View := .chosen []
  flags : Flags := .bits 0
  filter : MarkSet := .never
  attach : MarkSet := .never
  /-- The feature whose masks count. -/
  feature : Option String := none
  direction : Option String := none
  script : Option String := none
  language : Option String := none
  /-- The number for the next new item. -/
  nextOrigin : Nat := 0

namespace Buffer

def passing (b : Buffer) (test : Item → Except Fault Bool) : List Nat → Except Fault (List Nat)
  | [] => .ok []
  | p :: ps => do
    if ← test (← itemAt b.items p) then return p :: (← b.passing test ps) else b.passing test ps

def keep (b : Buffer) (test : Item → Except Fault Bool) (v : View) : Except Fault View := do
  return .chosen (← b.passing test v.places)

def inSet (m : MarkSet) (glyph : Option String) : Except Fault Bool :=
  match m with
  | .never => .error .missingPart
  | .nothing => .error .wrongKind
  | .glyphs l => .ok ((glyph.map l.contains).getD false)

def passes (m : MarkSet) (i : Item) : Except Fault Bool := do
  if (← i.category) != "mark" then return true
  inSet m i.glyph

def isNot (category : String) (i : Item) : Except Fault Bool := do return (← i.category) != category

def narrow (b : Buffer) (mask : Nat) (test : Item → Except Fault Bool) (v : View) : Except Fault View := do
  if ← b.flags.test mask then b.keep test v else return v

def visible (b : Buffer) : Except Fault View := do
  let v ← b.narrow 0x2 (isNot "base") (.whole b.items.length)
  let v ← b.narrow 0x4 (isNot "ligature") v
  let v ← b.narrow 0x8 (isNot "mark") v
  let v ← b.narrow 0x10 (passes b.filter) v
  let v ← b.narrow 0xFF00 (passes b.attach) v
  match b.feature with
  | none | some "" => return v
  | some f => b.keep (fun i => return !i.isMasked f) v

def settleFlags (b : Buffer) : Buffer := if b.flags.counts then b else { b with flags := .bits 0 }

def get (b : Buffer) (i : Int) : Except Fault Item := do
  itemAt b.items (← itemAt b.view.places i)

def indexOf (b : Buffer) (i : Int) : Except Fault Nat := itemAt b.view.places i

def slice (b : Buffer) (first last : Int) : Except Fault (List Item) :=
  match b.view with
  | .whole n =>
    let places := range (List.range n) first last
    .ok (places.filterMap fun i => b.items[i]?)
  | .chosen l => (range l first last).mapM fun (i : Nat) => itemAt b.items i

/-- Put items in the place of a range of the view. One place takes any number of items;
several places take one item, and the others are deleted. -/
def setSlice (b : Buffer) (first last : Int) (new : List Item) : Except Fault Buffer :=
  match range b.view.places first last, new with
  | [p], new => .ok { b with items := replaceRange b.items p (p + 1) new }
  | [], [_] => .error .outOfRange
  | p :: ps, [item] =>
    if (p :: ps).all (· < b.items.length) then
      .ok { b with items := ps.reverse.foldl (fun l i => l.eraseIdx i) (b.items.set p item) }
    else .error .outOfRange
  | _, _ => .error (.refused .tooHard)

def alter (b : Buffer) (i : Nat) (f : Item → Item) : Buffer := { b with items := b.items.modify i f }

def setMaskOf (b : Buffer) (i : Nat) (feature : String) (value : Bool) : Buffer :=
  match b.items[i]? with
  | none => b
  | some item =>
    { b with items := b.items.map fun x =>
        if x.origin == item.origin then { x with masks := Dict.set x.masks feature value } else x }

def newCharacter (b : Buffer) (code : Nat) : Item × Buffer :=
  ({ codepoint := some code, origin := b.nextOrigin }, { b with nextOrigin := b.nextOrigin + 1 })

def storeCharacters (b : Buffer) (codes : List Nat) : Buffer :=
  { b with
    items := codes.zipIdx.map fun (c, i) => { codepoint := some c, origin := b.nextOrigin + i }
    nextOrigin := b.nextOrigin + codes.length }

def move (b : Buffer) (source destination : Int) : Except Fault Buffer := do
  let item ← itemAt b.items source
  let rest := match placeIn? b.items.length source with
    | some n => b.items.eraseIdx n
    | none => b.items
  return { b with items := replaceRange rest destination destination [item] }

def allGlyphs (b : Buffer) : Bool := b.items.all (·.glyph.isSome)

def allCharacters (b : Buffer) : Bool := b.items.all (·.codepoint.isSome)

end Buffer

/-! ### Text -/

def attributeText? (i : Item) (name : String) : Option String :=
  let flag (b : Bool) : String := if b then "True" else "False"
  let text (s : Option String) : String := s.getD "None"
  match name with
  | "glyph" => some (text i.glyph)
  | "codepoint" => some (text (i.codepoint.map toString))
  | "feature_masks" =>
    let entries := i.masks.map fun (feature, masked) => Text.quoted feature ++ ": " ++ flag masked
    some ("\x7b" ++ Text.join ", " entries ++ "\x7d")
  | "gid" => i.state.map fun s => toString s.gid
  | "substituted" => i.state.map fun s => flag s.substituted
  | "ligated" => i.state.map fun s => flag s.ligated
  | "multiplied" => i.state.map fun s => flag s.multiplied
  | "category" => i.category?.map fun c => Text.parenthesised [Text.quoted c, "None"]
  | "syllable" => i.syllable
  | "syllable_index" => i.syllableIndex.map toString
  | "syllabic_category" => i.syllabicCategory.map fun
    | .named n => n
    | .reph => "1"
  | "positional_category" => i.positionalCategory
  | "syllabic_position" => i.place.map fun p => toString p.number
  | "arabic_joining" => i.joining
  | "attach_type" => i.attachKind.map fun
    | .mark => "mark"
    | .cursive => "cursive"
  | "attach_chain" => i.attachChain.map fun c => text (c.map toString)
  | _ => none

/-- The choices of what is written. -/
structure WriteOptions where
  position : Bool := true
  names : Bool := true
  ned : Bool := false
  additional : List String := []

def wholeText : Option Scalar → Except Fault String
  | some (.fixed n) => .ok (toString n.truncate)
  | _ => .error .wrongKind

def orZero : Option Scalar → Scalar
  | some s => if s.counts then s else .int 0
  | none => .int 0

def setAndCounts (s : Option Scalar) : Bool := (s.map Scalar.counts).getD false

def addScalars : Scalar → Scalar → Except Fault Scalar
  | .fixed a, .fixed b => .ok (.fixed (a + b))
  | _, _ => .error .wrongKind

def itemName (o : WriteOptions) (i : Item) : Except Fault String :=
  match i.glyph with
  | some g =>
    if g.isEmpty then codeText i
    else if o.names then .ok g
    else do return toString (← i.needState).gid
  | none => codeText i
where
  codeText (i : Item) : Except Fault String :=
    match i.codepoint with
    | some c => .ok ("U+" ++ Text.hex4Lower c)
    | none => .error .wrongKind

def positionText (index : Nat) (i : Item) (p : ValueRecord) : Except Fault String := do
  let place := (i.syllableIndex.map toString).getD (toString index)
  let moved ← if setAndCounts p.xPlacement || setAndCounts p.yPlacement then do
      pure ("@" ++ (← wholeText (some (orZero p.xPlacement))) ++ "," ++ (← wholeText (some (orZero p.yPlacement))))
    else pure ""
  return "=" ++ place ++ moved ++ "+" ++ (← wholeText p.xAdvance)

/-- The texts of the items. `position` says whether positions are still written: the
position of the item before decides it for the next. -/
def itemTexts (o : WriteOptions) : Nat → Bool → Scalar → List Item → Except Fault (List String)
  | _, _, _, [] => .ok []
  | index, position, cursor, i :: rest => do
    let name ← itemName o i
    let (shown, position, cursor) ← if o.ned then do
        let p ← i.position
        let x ← addScalars cursor (orZero p.xPlacement)
        let shown ← if x.counts then do
            pure (name ++ "@" ++ (← wholeText (some x)) ++ "," ++ (← wholeText (some (orZero p.yPlacement))))
          else pure name
        let advance ← p.xAdvance.elim (throw .wrongKind) pure
        pure (shown, p.isSet, ← addScalars cursor advance)
      else
        match position, i.state with
        | true, some s => do
          pure (name ++ (← positionText index i s.position), s.position.isSet, cursor)
        | _, _ => pure (name, position, cursor)
    let extra := o.additional.filterMap (attributeText? i)
    let shown := if extra.isEmpty then shown else shown ++ "(" ++ Text.join "," extra ++ ")"
    return shown :: (← itemTexts o (index + 1) position cursor rest)

def Buffer.text (b : Buffer) (o : WriteOptions) : Except Fault String := do
  return Text.join "|" (← itemTexts o 0 o.position (.int 0) b.items)

def Item.shown (i : Item) : Except Fault String := do
  match i.glyph with
  | some g =>
    if g.isEmpty then return "BufferItem(" ++ (← itemName.codeText i) ++ ")"
    let sign := match ← i.category with
      | "base" => "_"
      | "mark" => "^"
      | "ligature" => "(ﬁ)"
      | _ => "?"
    return "BufferItem(" ++ g ++ sign ++ ")"
  | none => return "BufferItem(" ++ (← itemName.codeText i) ++ ")"

end GlyphRules.Shaping
