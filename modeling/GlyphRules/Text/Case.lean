import GlyphRules.Text.Regex.Basic

/-! Letters and their case.

Small letters are known for the Latin, Greek and Cyrillic blocks; other characters stay
as they are. -/
namespace GlyphRules.Text

def lowerChar (c : Char) : Char :=
  let n := c.toNat
  let shifted (by_ : Nat) : Char := Char.ofNat (n + by_)
  if n < 0x80 then c.toLower
  else if 0xC0 ≤ n && n ≤ 0xDE && n != 0xD7 then shifted 32
  else if 0x100 ≤ n && n ≤ 0x177 && !(0x130 ≤ n && n ≤ 0x131) && !(0x138 ≤ n && n ≤ 0x149) then
    if n % 2 == 0 then shifted 1 else c
  else if (0x139 ≤ n && n ≤ 0x148) || (0x179 ≤ n && n ≤ 0x17E) then
    if n % 2 == 1 then shifted 1 else c
  else if n == 0x178 then 'ÿ'
  else if 0x391 ≤ n && n ≤ 0x3AB && n != 0x3A2 then shifted 32
  else if 0x410 ≤ n && n ≤ 0x42F then shifted 32
  else if 0x400 ≤ n && n ≤ 0x40F then shifted 80
  else if 0x1E00 ≤ n && n ≤ 0x1E95 then if n % 2 == 0 then shifted 1 else c
  else c

def lower (s : String) : String := String.ofList (s.toList.map lowerChar)

def isLetter (c : Char) : Bool :=
  if c.toNat < 0x80 then c.isAlpha else Regex.isWordChar c

end GlyphRules.Text
