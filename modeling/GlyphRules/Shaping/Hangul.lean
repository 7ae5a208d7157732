import GlyphRules.Shaping.Normalise
import GlyphRules.Shaping.Vowels

/-! Hangul syllables.

Letters are composed to a syllable if the font has it; a syllable is taken apart when a final letter
follows that it cannot take in. A text that gets shorter while it is read runs out of characters. -/
namespace GlyphRules.Shaping.Hangul

def isLeading (c : Nat) : Bool := (0x1100 ≤ c && c ≤ 0x115F) || (0xA960 ≤ c && c ≤ 0xA97C)
def isVowel (c : Nat) : Bool := (0x1160 ≤ c && c ≤ 0x11A7) || (0xD7B0 ≤ c && c ≤ 0xD7C6)
def isTrailing (c : Nat) : Bool := (0x11A8 ≤ c && c ≤ 0x11FF) || (0xD7CB ≤ c && c ≤ 0xD7FB)
def isTone (c : Nat) : Bool := c == 0x302E || c == 0x302F

def composesL (c : Nat) : Bool := Text.hangulL ≤ c && c ≤ Text.hangulL + 18
def composesV (c : Nat) : Bool := Text.hangulV ≤ c && c ≤ Text.hangulV + 20
def composesT (c : Nat) : Bool := Text.hangulT < c && c ≤ Text.hangulT + 27

def syllableOf (l v : Nat) (final : Option Nat) : Nat :=
  Text.hangulS + (l - Text.hangulL) * Text.hangulN + (v - Text.hangulV) * 28 + (final.map (· - Text.hangulT)).getD 0

/-- Whether a syllable has no final letter yet. -/
def isOpen (s : Nat) : Bool := (s - Text.hangulS) % 28 == 0

def closedBy (s t : Nat) : Nat := s + (t - Text.hangulT)

/-- Whether letters make up a syllable that the font has. -/
def composes (font : Font) (l v : Nat) (final : Option Nat) : Bool :=
  composesL l && composesV v && final.all composesT && hasGlyph font (syllableOf l v final)

/-- The final letter two places on. `count` is the length that the text had at first. -/
def finalAt (count i : Nat) (codes : List Nat) : Except Fault (Option Nat) :=
  if i + 2 < count then do return (some (← itemAt codes (i + 2 : Nat))).filter isTrailing else return none

/-- A leading letter and a vowel, with a final letter if one follows. -/
def composeLetters (font : Font) (count i l : Nat) (codes : List Nat) : Except Fault (List Nat) := do
  let v ← itemAt codes (i + 1 : Nat)
  if !isVowel v then return codes
  let final ← finalAt count i codes
  if composes font l v final then
    return replaceRange codes i (i + (if final.isSome then 3 else 2) : Nat) [syllableOf l v final]
  return codes

/-- A syllable, composed with a final letter that follows it, or taken apart before one. -/
def meetFinal (font : Font) (count i s : Nat) (codes : List Nat) : Except Fault (List Nat) := do
  if !isOpen s || count ≤ i + 1 then return codes
  let t ← itemAt codes (i + 1 : Nat)
  if composesT t && hasGlyph font (closedBy s t) then
    return replaceRange codes i (i + 2 : Nat) [closedBy s t]
  if isTrailing t && (Text.syllableParts s).all (hasGlyph font) then
    let codes := replaceRange codes i (i + 2 : Nat) (Text.syllableParts s)
    let _ ← itemAt codes (i + 2 : Nat)
    return codes
  return codes

def stepAt (font : Font) (count : Nat) (codes : List Nat) (i : Nat) : Except Fault (List Nat) := do
  let u ← itemAt codes i
  if isTone u then
    -- A tone mark on nothing would need its width.
    if hasGlyph font dottedCircle then throw .missingPart
    return codes
  if isLeading u && i + 1 < count then composeLetters font count i u codes
  else if Text.isSyllable u then meetFinal font count i u codes
  else return codes

def composeText (font : Font) (codes : List Nat) : Except Fault (List Nat) :=
  (List.range codes.length).foldlM (stepAt font codes.length) codes

end GlyphRules.Shaping.Hangul
