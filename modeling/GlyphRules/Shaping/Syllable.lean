import GlyphRules.Shaping.Apply
import GlyphRules.Shaping.Pattern
import GlyphRules.Shaping.Vowels

/-! Shaping by syllables.

Items get categories and are cut into syllables, and each syllable is put in order. One without a
base gets a dotted circle. -/
namespace GlyphRules.Shaping

/-- What a script knows about its syllables. -/
structure SyllableRules where
  kinds : SyllableKinds
  /-- Find the category of an item. -/
  classify : Item → Shape Item
  /-- The category after which a dotted circle stands, if any. -/
  repha : Option String
  /-- What is done to all items before syllables are put in order. -/
  prepare : Shape Unit := pure ()
  /-- Put a syllable of some kind in order, from its start to its end. -/
  reorder : String → Nat → Nat → Shape Unit
  /-- Put a syllable in order after the basic features. -/
  finish : Nat → Nat → Shape Unit := fun _ _ => pure ()

/-- Whether a dotted circle stands after an item, not before it. -/
def SyllableRules.isRepha (r : SyllableRules) (i : Item) : Bool :=
  match r.repha, i.syllabicCategory with
  | some repha, some (.named name) => repha == name
  | _, _ => false

/-- Whether a broken syllable begins with an item, behind one of the given syllable if any. -/
def Item.beginsBroken (before : Option (Option Int)) (i : Item) : Bool :=
  i.syllable == some "broken_cluster" && before != some i.syllableIndex

def upTo (first last : Nat) : List Nat := List.range' first (last - first)

namespace Shape

/-! ### The items of a syllable -/

def item (i : Int) : Shape Item := ask fun b => itemAt b.items i

def cat (i : Int) : Shape (Option String) := do ofExcept (← item i).categoryName

/-- Whether the category of an item is one of the given. -/
def isCat (i : Int) (names : List String) : Shape Bool := do
  return ((← cat i).map names.contains).getD false

def pos (i : Int) : Shape Place := do ofExcept (← item i).placeOf

def alterItem (i : Int) (f : Item → Item) : Shape Unit := do
  let b ← buffer
  match placeIn? b.items.length i with
  | some n => onBuffer fun b => b.alter n f
  | none => throw .outOfRange

def setPos (i : Int) (p : Place) : Shape Unit := alterItem i fun x => { x with place := some p }

def maskItem (i : Int) (feature : String) (value : Bool) : Shape Unit := do
  let b ← buffer
  match placeIn? b.items.length i with
  | some n => onBuffer fun b => b.setMaskOf n feature value
  | none => throw .outOfRange

def moveItem (source destination : Nat) : Shape Unit := do
  let b ← ask fun b => b.move source destination
  onBuffer fun _ => b

def sortByPlace (start stop : Nat) : Shape Unit := do
  let b ← buffer
  let part := range b.items start stop
  let keyed ← ofExcept (part.mapM fun i => do return ((← i.placeOf).number, i))
  let sorted := (keyed.mergeSort fun a b => a.1 ≤ b.1).map (·.2)
  onBuffer fun b => { b with items := replaceRange b.items start stop sorted }

/-! ### Cutting -/

/-- The category of an item in pointed brackets, its position in round ones, and its number. -/
def entryText (i : Item) (index : Nat) : String :=
  "<" ++ (i.categoryName.toOption.bind id).getD "" ++ ">(" ++ i.positionalCategory.getD "" ++ ")=" ++ toString index

def classifyAt (r : SyllableRules) (index : Nat) : Shape String := do
  let i ← r.classify (← item index)
  onBuffer fun b => b.alter index fun _ => i
  return entryText i index

/-- Mark the items whose numbers stand in the text of a syllable. -/
def markSyllable (name : String) (index : Nat) (text : List Char) : Shape Unit := do
  match numbersIn text with
  | [] => throw .outOfRange
  | first :: others =>
    for i in upTo first (others.getLastD first + 1) do
      alterItem i fun x => { x with syllable := some name, syllableIndex := some index }

/-- Cut a text into syllables. A part that starts no syllable is a fault. -/
def markSyllables (kinds : SyllableKinds) : Nat → Nat → List Char → Shape Unit
  | _, _, [] => return
  | 0, _, _ :: _ => throw .unfinished
  | fuel + 1, index, text => do
    match firstSyllable? kinds text with
    | none => throw .brokenPromise
    | some (name, rest) =>
      markSyllable name index (text.take (text.length - rest.length))
      markSyllables kinds fuel (index + 1) rest

def cutSyllables (r : SyllableRules) : Shape Unit := do
  let entries ← (List.range (← buffer).items.length).mapM (classifyAt r)
  let text := Text.join "" entries
  say ("Set up syllables: " ++ text)
  markSyllables r.kinds text.length 0 text.toList
  sayWith "Syllables" ["syllable_index", "syllable"]

/-- Where the syllable that starts at an index ends. The item after it must be in a syllable too. -/
def endOfSyllable (items : List Item) (index : Int) (at_ : Nat) : Except Fault Nat :=
  let stop := at_ + ((items.drop at_).takeWhile fun i => i.syllableIndex == some index).length
  match items[stop]? with
  | some { syllableIndex := none, .. } => .error .missingPart
  | _ => .ok stop

def forSyllables (f : String → Nat → Nat → Shape Unit) : Nat → Nat → Shape Unit
  | 0, _ => return
  | fuel + 1, at_ => do
    let items := (← buffer).items
    match items[at_]? with
    | none => return
    | some i =>
      match i.syllable, i.syllableIndex with
      | some name, some index =>
        let stop ← ofExcept (endOfSyllable items index at_)
        f name at_ stop
        forSyllables f fuel stop
      | _, _ => throw .missingPart

def eachSyllable (f : String → Nat → Nat → Shape Unit) : Shape Unit := do
  forSyllables f ((← buffer).items.length + 1) 0

/-! ### Dotted circles -/

/-- A look at an item. A broken syllable that begins there gets a dotted circle. -/
def circlePass (r : SyllableRules) (ix : Nat) : Shape (Option Nat) := do
  let items := (← buffer).items
  match items[ix]? with
  | none => return none
  | some i =>
    match i.syllable with
    | none => throw .missingPart
    | some _ =>
      if i.beginsBroken (if ix == 0 then none else items[ix - 1]?.map (·.syllableIndex)) then
        let (circle, b) := (← buffer).newCharacter dottedCircle
        onBuffer fun _ => b
        let circle ← r.classify { circle with syllable := i.syllable, syllableIndex := i.syllableIndex }
        let circle ← mapped circle
        let place := if r.isRepha i then ix + 1 else ix
        onBuffer fun b => { b with items := b.items.take place ++ circle :: b.items.drop place }
      return some (ix + 1)

def reorderSyllables (r : SyllableRules) : Shape Unit := do
  r.prepare
  Step.repeated (circlePass r)
  eachSyllable r.reorder
  sayWith "After initial reordering" ["syllable_index", "syllable"]

/-- Put the items of all syllables in order once more. -/
def finishSyllables (r : SyllableRules) : Shape Unit := eachSyllable fun _ => r.finish

/-! ### What a feature would do -/

def fitsAnywhere (classes : Classes) (r : Rule) : Shape Bool := do
  let tried ← (List.range (← buffer).view.size).mapM fun (i : Nat) => wouldApply classes r i
  return tried.any id

def anyFits (classes : Classes) : List Rule → Shape Bool
  | [] => return false
  | r :: rest => do
    if (← ofExcept ((← get).book.ruleStage r)) == some .pos then anyFits classes rest
    else if ← fitsAnywhere classes r then return true
    else anyFits classes rest

/-- Do something with another buffer in the place of this one. -/
def within {α : Type} (b : Buffer) (f : Shape α) : Shape α := do
  let mine ← buffer
  onBuffer fun _ => b
  let (r, s) := f.run (← get)
  set { s with buffer := mine }
  ofExcept r

def wouldSubstitute (feature : String) (items : List Item) : Shape Bool := do
  let book := (← get).book
  match Dict.get? book.features feature with
  | none => return false
  | some calls =>
    let mine ← buffer
    within { items, direction := mine.direction, script := mine.script, language := mine.language } do
      clearMask
      go book.namedClasses calls
where
  go (classes : Classes) : List Lookup → Shape Bool
    | [] => return false
    | .bare i :: rest => do
      if ← anyFits classes ((← get).book.rulesOf i) then return true else go classes rest
    | .ref { routine := some i, .. } :: rest => do
      if ← anyFits classes ((← get).book.rulesOf i) then return true else go classes rest
    | .ref { routine := none, .. } :: _ => throw .missingPart

def looseGlyph (code : Nat) : Shape Item := mapped { codepoint := some code }

end Shape
end GlyphRules.Shaping
