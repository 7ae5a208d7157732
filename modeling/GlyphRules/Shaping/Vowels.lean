import GlyphRules.Step

/-! Vowels that must not meet.

Some sequences of vowels look like other vowels. A dotted circle is put between
them, so that a reader sees what was written. -/
namespace GlyphRules.Shaping

open Step

def dottedCircle : Nat := 0x25CC

/-- For each script the characters that must not be followed by certain others. -/
def vowelClashes : List (String × List (List Nat × List Nat)) :=
  [("Devanagari", [([0x0905], [0x093A, 0x093B, 0x093E, 0x0945, 0x0946, 0x0949, 0x094A, 0x094B, 0x094C,
       0x094F, 0x0956, 0x0957]),
     ([0x0906], [0x093A, 0x0945, 0x0946, 0x0947, 0x0948]),
     ([0x0909], [0x0941]),
     ([0x090F], [0x0945, 0x0946, 0x0947])]),
   ("Bengali", [([0x0985], [0x09BE]),
     ([0x098B], [0x09C3]),
     ([0x098C], [0x09E2])]),
   ("Gurmukhi", [([0x0A05], [0x0A3E, 0x0A48, 0x0A4C]),
     ([0x0A72], [0x0A3F, 0x0A40, 0x0A47]),
     ([0x0A73], [0x0A41, 0x0A42, 0x0A4B])]),
   ("Gujarati", [([0x0A85], [0x0ABE, 0x0AC5, 0x0AC7, 0x0AC8, 0x0AC9, 0x0ACB, 0x0ACC]),
     ([0x0AC5], [0x0ABE])]),
   ("Oriya", [([0x0B05], [0x0B3E]),
     ([0x0B0F, 0x0B13], [0x0B57])]),
   ("Tamil", [([0x0B85], [0x0BC2])]),
   ("Telugu", [([0x0C12], [0x0C4C, 0x0C55]),
     ([0x0C3F, 0x0C46, 0x0C4A], [0x0C55])]),
   ("Kannada", [([0x0C89, 0x0C8B], [0x0CBE]),
     ([0x0C92], [0x0CCC])]),
   ("Malayalam", [([0x0D07, 0x0D09], [0x0D57]),
     ([0x0D0E], [0x0D46]),
     ([0x0D12], [0x0D3E, 0x0D57])]),
   ("Sinhala", [([0x0D85], [0x0DCF, 0x0DD0, 0x0DD1]),
     ([0x0D8B, 0x0D8F, 0x0D94], [0x0DDF]),
     ([0x0D8D], [0x0DD8]),
     ([0x0D91], [0x0DCA, 0x0DD9, 0x0DDA, 0x0DDC, 0x0DDD, 0x0DDE])]),
   ("Brahmi", [([0x11005], [0x11038]),
     ([0x1100B], [0x1103E]),
     ([0x1100F], [0x11042])]),
   ("Khudawadi", [([0x112B0], [0x112E0, 0x112E5, 0x112E6, 0x112E7, 0x112E8])]),
   ("Tirhuta", [([0x11481], [0x114B0]),
     ([0x1148B, 0x1148D], [0x114BA]),
     ([0x114AA], [0x114B5, 0x114B6])]),
   ("Modi", [([0x11600, 0x11601], [0x11639, 0x1163A])]),
   ("Takri", [([0x11680], [0x116AD, 0x116B4, 0x116B5]),
     ([0x11686], [0x116B2])])]

/-- Whether two characters of a script must not meet. -/
def vowelsClash (script : String) (a b : Nat) : Bool :=
  (((vowelClashes.find? (·.1 == script)).map (·.2)).getD []).any fun (firsts, seconds) =>
    firsts.contains a && seconds.contains b

/-- Three characters of a script with a circle before the last: the letter ra, a virama and the vowel i. -/
def tripleClash (script : String) (a b c : Nat) : Bool :=
  script == "Devanagari" && a == 0x0930 && b == 0x094D && c == 0x0907

/-- A look at a place of a text. Before the last of the characters that must not meet there a circle
is put, and its place is the next one. The last character is not looked at. -/
def vowelPass (script : String) : Pass (List Nat) := fun at_ => do
  let text ← get
  match text.drop at_ with
  | a :: b :: rest =>
    let triple := rest.head?.any (tripleClash script a b)
    let next := if triple then at_ + 2 else at_ + 1
    if triple || vowelsClash script a b then
      set (text.take next ++ dottedCircle :: text.drop next)
    return some next
  | _ => return none

/-- Put dotted circles between the vowels that must not meet, from the first place on. -/
def separateVowels (script : String) (text : List Nat) : List Nat :=
  ((loop (vowelPass script) 0 text).map (·.2)).getD text

end GlyphRules.Shaping
