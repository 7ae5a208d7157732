import GlyphRules.Shaping.Session
import GlyphRules.Shaping.Script

/-! The script and direction of a text. -/
namespace GlyphRules.Shaping.Shape

/-- Scripts that say nothing about the text. -/
def neutralScripts : List String := ["Common", "Unknown", "Inherited"]

def isGiven : Option String → Bool
  | none | some "" => false
  | _ => true

/-- The first script that says something, unless one is given. -/
def guessScript : List Item → Shape Unit
  | [] => return
  | i :: rest => do
    if !isGiven (← buffer).script then
      match i.codepoint with
      | none => throw .notFound
      | some c =>
        let script ← ofExcept ((← get).characters.get c "Script")
        if !neutralScripts.contains script then onBuffer fun b => { b with script := some script }
    guessScript rest

def guessSegment : Shape Unit := do
  guessScript (← buffer).items
  if !isGiven (← buffer).direction then
    onBuffer fun b => { b with direction := some (scriptDirection b.script) }

def start (glyphs : List String) (codes : List Nat) (direction script language : Option String) : Shape Unit := do
  onBuffer fun b => { b with items := [], view := .chosen [], direction, script, language }
  if !glyphs.isEmpty then
    storeGlyphs glyphs
    clearMask
  else if !codes.isEmpty then
    storeCharacters codes
    guessSegment

end GlyphRules.Shaping.Shape
