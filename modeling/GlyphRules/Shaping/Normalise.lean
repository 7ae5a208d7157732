import GlyphRules.Shaping.Session

/-! Characters made uniform before shaping.

Most scripts compose what can be composed. Those that are shaped by syllables take characters apart,
and rely on it that no neighbours can be composed. -/
namespace GlyphRules.Shaping

def hasGlyph (f : Font) (code : Nat) : Bool :=
  match f.glyphFor? code with
  | none | some "" => false
  | some _ => true

/-- Spaces of all kinds become the plain one and the unbreakable hyphen the plain one, if the font has them. -/
def plainCharacter (characters : Characters) (font : Font) (code : Nat) : Except Fault Nat := do
  let code := if (← characters.get code "General_Category") == "Zs" && hasGlyph font 0x20 then 0x20 else code
  return if code == 0x2011 && hasGlyph font 0x2010 then 0x2010 else code

def composeCharacters (characters : Characters) (font : Font) (codes : List Nat) : Except Fault (List Nat) :=
  (Text.compose codes).mapM (plainCharacter characters font)

/-- Two characters that are one when joined, where others can only be refused. -/
structure Joined where
  first : Nat
  second : Nat
  whole : Nat

def joinPairs (characters : Characters) (joined : Option Joined) : List Nat → Except Fault (List Nat)
  | [] => .ok []
  | [a] => .ok [a]
  | a :: b :: rest => do
    let isMark := Text.hasStart "M" (← characters.get a "General_Category")
    if isMark then return a :: (← joinPairs characters joined (b :: rest))
    match joined.filter fun j => j.first == a && j.second == b with
    | some j => return j.whole :: (← joinPairs characters joined rest)
    | none =>
      if Text.compose [a, b] != Text.decompose [a, b] then throw .brokenPromise
      return a :: (← joinPairs characters joined (b :: rest))

end GlyphRules.Shaping
