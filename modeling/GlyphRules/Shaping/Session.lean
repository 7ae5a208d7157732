import GlyphRules.Shaping.Buffer
import GlyphRules.Book.Stage

/-! A shaping session.

Shaping works on a buffer with the rules of a book, the glyphs of a font and what is known about
characters, and says what it does. A failed step keeps what it changed. -/
namespace GlyphRules.Shaping

/-- Something said while shaping; details are for those who want to know why. -/
structure Remark where
  text : String
  isDetail : Bool := false

structure Session where
  book : Book
  font : Font
  characters : Characters
  buffer : Buffer := {}
  /-- What has been said so far. -/
  remarks : Array Remark := #[]
  /-- The rules that were applied, each with the routine that was run. -/
  applied : List (RoutineId × RuleId) := []

def Session.trace (s : Session) (details : Bool := false) : List String :=
  (s.remarks.toList.filter fun r => details || !r.isDetail).map (·.text)

abbrev Shape := Step Session

namespace Shape

def onBook {α : Type} (a : Act α) : Shape α := do
  let (r, book) := a.on (← get).book
  modify fun s => { s with book }
  ofExcept r

def warn (text : String) : Shape Unit := modify fun s => { s with book := s.book.warn text }

def buffer : Shape Buffer := do return (← get).buffer

def onBuffer (f : Buffer → Buffer) : Shape Unit := modify fun s => { s with buffer := f s.buffer }

def ask {α : Type} (f : Buffer → Except Fault α) : Shape α := do ofExcept (f (← get).buffer)

def say (message : String) : Shape Unit := modify fun s => { s with remarks := s.remarks.push { text := message } }

def sayDetail (message : String) : Shape Unit :=
  modify fun s => { s with remarks := s.remarks.push { text := message, isDetail := true } }

/-- Say something about the buffer, and show it if anything of it can be seen. -/
def sayWith (message : String) (additional : List String := []) : Shape Unit := do
  let b ← buffer
  if b.view.size == 0 then say message
  else say (message ++ " : " ++ (← ofExcept (b.text { additional })))

end Shape

/-! ### Glyphs -/

def unknownGlyphWarning (glyph : Option String) : String :=
  "Error getting category: " ++
    Text.quoted ("No glyph named " ++ ((glyph.map Text.quoted).getD "None") ++ ".")

def fallbackCategory (characters : Characters) (i : Item) : String :=
  match i.codepoint with
  | none | some 0 => "unknown"
  | some c =>
    match ((characters.get? c "General_Category").getD "L").toList with
    | 'M' :: _ => "mark"
    | ['L', 'l'] => "ligature"
    | 'L' :: _ => "base"
    | _ => "unknown"

def glyphOf? (font : Font) (i : Item) : Option Glyph := i.glyph.bind font.find?

def categoryOf (font : Font) (characters : Characters) (i : Item) : String × List String :=
  match glyphOf? font i with
  | some g =>
    match g.category with
    | none | some "" => ("unknown", [])
    | some c => (c, [])
  | none => (fallbackCategory characters i, [unknownGlyphWarning i.glyph])

def freshState (font : Font) (i : Item) : GlyphState :=
  { gid := ((i.glyph.bind fun g => font.names.idxOf? g).map Int.ofNat).getD (-1)
    position := { xAdvance := some (((glyphOf? font i).map fun g => Scalar.fixed g.width).getD (.int 0)) } }

namespace Shape

def prepared (i : Item) : Shape (Item × Option Fault) := do
  let s ← get
  let (category, warnings) := categoryOf s.font s.characters i
  warnings.forM warn
  let i := { i with category? := some category, state := some (freshState s.font i) }
  return (i, if (glyphOf? s.font i).isSome then none else some .notFound)

def preparedInFont (i : Item) : Shape Item := do
  match ← prepared i with
  | (i, none) => return i
  | (_, some f) => throw f

def prepareAt (index : Nat) (change : Item → Item) : Shape Unit := do
  match (← buffer).items[index]? with
  | none => throw .outOfRange
  | some i =>
    let (i, fault) ← prepared (change i)
    onBuffer fun b => b.alter index fun _ => i
    match fault with
    | some f => throw f
    | none => return

def newGlyph (glyph : String) : Shape Item := do
  let origin := (← buffer).nextOrigin
  onBuffer fun b => { b with nextOrigin := origin + 1 }
  preparedInFont { glyph := some glyph, origin }

def glyphFor (i : Item) : Shape String := do
  match i.glyph with
  | none | some "" => ofExcept ((← get).font.glyphOrNotdef (i.codepoint.getD 0))
  | some g => return g

def mapped (i : Item) : Shape Item := do
  let g ← glyphFor i
  preparedInFont { i with glyph := some g }

def recategorise (index : Nat) : Shape Unit := do
  let s ← get
  match s.buffer.items[index]? with
  | none => return
  | some i =>
    let (category, warnings) := categoryOf s.font s.characters i
    warnings.forM warn
    onBuffer fun b => b.alter index fun i => { i with category? := some category }

/-! ### The view -/

def remask : Shape Unit := do
  onBuffer Buffer.settleFlags
  let view ← ask Buffer.visible
  onBuffer fun b => { b with view }

def setMask (flags : Flags) (filter : Option (List String)) (attach : Option (List String)) : Shape Unit := do
  onBuffer fun b => { b with flags, filter := .ofOption filter, attach := .ofOption attach }
  remask

def clearMask : Shape Unit := do
  onBuffer fun b => { b with flags := .bits 0, filter := .nothing, feature := none }
  remask

def setFeature (feature : String) : Shape Unit := do
  onBuffer fun b => { b with feature := some feature }
  remask

/-- Categorise all items again and compute the view. -/
def update : Shape Unit := do
  (List.range (← buffer).items.length).forM recategorise
  remask

/-! ### Filling the buffer -/

def storeGlyphs (glyphs : List String) : Shape Unit := do
  let items ← glyphs.mapM newGlyph
  onBuffer fun b => { b with items }

def storeCharacters (codes : List Nat) : Shape Unit := onBuffer fun b => b.storeCharacters codes

def mapToGlyphs : Shape Unit := do
  for index in List.range (← buffer).items.length do
    match (← buffer).items[index]? with
    | none => pure ()
    | some i =>
      let g ← glyphFor i
      prepareAt index fun i => { i with glyph := some g }
  clearMask

end Shape
end GlyphRules.Shaping
