import GlyphRules.Shaping.Syllable
import GlyphRules.Shaping.Indic.Category

/-! Myanmar syllables. -/
namespace GlyphRules.Shaping.Myanmar
open Pattern Shape

/-- Ranges of characters whose category is not that of their properties. -/
def exceptions : List (Nat × Nat × String) :=
  [(0x002D, 0x002D, "GB"), (0x00A0, 0x00A0, "GB"), (0x00D7, 0x00D7, "GB"), (0x1004, 0x1004, "Ra"),
   (0x101B, 0x101B, "Ra"), (0x1032, 0x1032, "A"), (0x1036, 0x1036, "A"), (0x1038, 0x1038, "SM"),
   (0x1039, 0x1039, "H"), (0x103A, 0x103A, "As"), (0x103B, 0x103B, "MY"), (0x103C, 0x103C, "MR"),
   (0x103D, 0x103D, "MW"), (0x103E, 0x103E, "MH"), (0x1040, 0x1049, "D"), (0x104A, 0x104B, "P"),
   (0x104E, 0x104E, "C"), (0x105A, 0x105A, "Ra"), (0x105E, 0x105F, "MY"), (0x1060, 0x1060, "MH"),
   (0x1063, 0x1064, "PT"), (0x1069, 0x106D, "PT"), (0x1082, 0x1082, "MW"), (0x1087, 0x108F, "SM"),
   (0x1090, 0x1099, "D"), (0x109A, 0x109C, "SM"), (0x2012, 0x2015, "GB"), (0x2022, 0x2022, "GB"),
   (0x25CC, 0x25CC, "GB"), (0x25FB, 0x25FE, "GB"), (0xAA74, 0xAA76, "C"), (0xAA7B, 0xAA7B, "PT"),
   (0xF300, 0xFE0F, "VS")]

def exception? (c : Nat) : Option String :=
  (exceptions.find? fun (a, b, _) => a ≤ c && c ≤ b).map (·.2.2)

def classify (i : Item) : Shape Item := do
  let i := classifyByProperties (← get).characters i
  let name := ((i.codepoint.bind exception?).orElse fun _ => i.categoryName.toOption.bind id).getD ""
  let (name, place) := match name, i.place with
    | "M", some .preConsonant => ("VPre", some Place.preMatra)
    | "M", some .above => ("VAbv", i.place)
    | "M", some .below => ("VBlw", i.place)
    | "M", some .post => ("VPst", i.place)
    | name, place => (name, place)
  return { i with syllabicCategory := some (.named name), place }

/-! ### Syllables -/

def joiner : Pattern := oneOf "ZWJ" ["ZWNJ"]
def kinzi : Pattern := one "Ra" ++ one "As" ++ one "H"
def consonant : Pattern := oneOf "C" ["Ra"]
def medialGroup : Pattern :=
  opt (one "MY") ++ opt (one "As") ++ opt (one "MR") ++
    opt (alt (one "MW" ++ opt (one "MH")) (one "MH") ++ opt (one "As"))
/-- Names that are no categories are read letter by letter, and no entry begins with a letter. -/
def below : Pattern := letter 'D' ++ letter 'B' ++ opt (one "As")
def consonantOrVowel : Pattern := alt consonant (letter 'I' ++ letter 'V')
def mainVowelGroup : Pattern :=
  many (one "VPre" ++ opt (one "VS")) ++ many (one "VAbv") ++ many (one "VBlw") ++ many (one "A") ++ opt below
def postVowelGroup : Pattern :=
  one "VPst" ++ opt (one "MH") ++ many (one "As") ++ many (one "VAbv") ++ many (one "A") ++ opt below
def toneGroup : Pattern := one "PT" ++ many (one "A") ++ letter 'D' ++ opt (letter 'B') ++ opt (one "As")
def complexTail : Pattern :=
  many (one "As") ++ medialGroup ++ mainVowelGroup ++ many postVowelGroup ++ many toneGroup ++ many (one "V") ++
    opt joiner
def syllableTail : Pattern :=
  many (one "H" ++ consonantOrVowel ++ opt (one "VS")) ++ alt (one "H") complexTail

def kinds : SyllableKinds :=
  [("consonant_syllable",
     opt (alt kinzi (one "CS")) ++ alt consonantOrVowel (oneOf "D" ["GB"]) ++ opt (one "VS") ++ syllableTail),
   ("punctuation_cluster", one "P" ++ one "V"),
   ("broken_cluster", opt kinzi ++ opt (one "VS") ++ syllableTail),
   ("other", any)]

/-! ### Order -/

def hasKinzi (start stop : Nat) : Shape Bool := do
  if start + 3 ≤ stop then
    if (← cat start) == some "Ra" then
      if (← cat (start + 1 : Nat)) == some "As" then
        return (← cat (start + 2 : Nat)) == some "H"
  return false

/-- The places of what follows the base; `place` is where the last of it went. -/
def placeRest : List Nat → Place → Shape Unit
  | [], _ => return
  | i :: rest, place => do
    let name := (← cat i).getD ""
    if name == "MR" then
      setPos i .preConsonant
      placeRest rest place
    else if (← pos i).number < Place.base.number then placeRest rest place
    else if name == "VS" then
      setPos i (← pos ((i : Int) - 1))
      placeRest rest place
    else if place == .afterMain && name == "VBlw" then
      setPos i .below
      placeRest rest .below
    else if place == .below && name == "A" then
      setPos i .beforeSub
      placeRest rest place
    else if place == .below && name != "VBlw" then
      setPos i .afterSub
      placeRest rest .afterSub
    else
      setPos i place
      placeRest rest place

def reorderSyllable (start stop : Nat) : Shape Unit := do
  let kinzi ← hasKinzi start stop
  let limit := if kinzi then start + 3 else start
  let consonants ← (upTo limit stop).filterM fun (i : Nat) => isCat i consonantCategories
  let base := consonants.headD start
  for i in upTo start limit do
    setPos i .afterMain
  for i in upTo limit base do
    setPos i .preConsonant
  let at_ := Nat.max limit base
  if at_ < stop then setPos at_ .base
  placeRest (upTo (at_ + 1) stop) .afterMain
  sortByPlace start stop

def reorder (kind : String) (start stop : Nat) : Shape Unit := do
  if kind == "broken_cluster" || kind == "consonant_syllable" then reorderSyllable start stop

def rules : SyllableRules := { kinds, classify, repha := none, reorder }

end GlyphRules.Shaping.Myanmar
