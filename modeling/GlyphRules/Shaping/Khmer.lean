import GlyphRules.Shaping.Syllable
import GlyphRules.Shaping.Indic.Category
import GlyphRules.Shaping.Normalise

/-! Khmer syllables. -/
namespace GlyphRules.Shaping.Khmer
open Pattern Shape

def exceptions : List (Nat × String) :=
  [(0x179A, "Ra"), (0x17CC, "Robatic"), (0x17C9, "Robatic"), (0x17CA, "Robatic"), (0x17C6, "Xgroup"),
   (0x17CB, "Xgroup"), (0x17CD, "Xgroup"), (0x17CE, "Xgroup"), (0x17CF, "Xgroup"), (0x17D0, "Xgroup"),
   (0x17D1, "Xgroup"), (0x17C7, "Ygroup"), (0x17C8, "Ygroup"), (0x17DD, "Ygroup"), (0x17D3, "Ygroup")]

def vowelCategory : Place → String
  | .preConsonant => "VPre"
  | .above => "VAbv"
  | .below => "VBlw"
  | .post => "VPst"
  | _ => "M"

def classify (i : Item) : Shape Item := do
  let i := classifyByProperties (← get).characters i
  let name := ((i.codepoint.bind fun c => (exceptions.find? (·.1 == c)).map (·.2)).orElse fun _ =>
    i.categoryName.toOption.bind id).getD ""
  let name := if name == "M" then vowelCategory (i.place.getD .stop) else name
  return { i with syllabicCategory := some (.named name) }

/-! ### Syllables -/

def consonant : Pattern := oneOf "C" ["Ra", "V"]
def joiner : Pattern := oneOf "ZWJ" ["ZWNJ"]
def consonantN : Pattern := consonant ++ opt (opt joiner ++ one "Robatic")
def xGroup : Pattern := many (many joiner ++ one "Xgroup")
def matraGroup : Pattern :=
  opt (one "VPre") ++ xGroup ++ opt (one "VBlw") ++ xGroup ++ opt (opt joiner ++ one "VAbv") ++ xGroup ++
    opt (one "VPst")
def syllableTail : Pattern :=
  xGroup ++ matraGroup ++ xGroup ++ opt (one "Coeng" ++ consonant) ++ many (one "Ygroup")
def brokenCluster : Pattern := many (one "Coeng" ++ consonantN) ++ alt (one "Coeng") syllableTail

def kinds : SyllableKinds :=
  [("consonant_syllable", alt consonantN (oneOf "PLACEHOLDER" ["DOTTEDCIRCLE"]) ++ brokenCluster),
   ("broken_cluster", brokenCluster),
   ("other", any)]

/-! ### Order -/

def maskAll (places : List Nat) (features : List String) (value : Bool) : Shape Unit := do
  for p in places do
    for f in features do
      maskItem p f value

/-- Go through a syllable: a subscript ro and a vowel on the left move to its start. -/
def reorderFrom (start stop : Nat) : List Nat → Nat → Shape Unit
  | [], _ => return
  | i :: rest, coengs => do
    if (← cat i) == some "Coeng" && coengs ≤ 2 && i + 1 < stop then
      if (← cat (i + 1 : Nat)) == some "Ra" then
        maskAll [i, i + 1] ["pref"] false
        moveItem (i + 1) start
        moveItem (i + 1) start
        maskAll (upTo (i + 2) stop) ["cfar"] false
        reorderFrom start stop rest 2
      else reorderFrom start stop rest (coengs + 1)
    else
      if (← cat i) == some "VPre" then moveItem i start
      reorderFrom start stop rest coengs

def reorder (kind : String) (start stop : Nat) : Shape Unit := do
  if kind == "broken_cluster" || kind == "consonant_syllable" then
    maskAll (upTo (start + 1) stop) ["blwf", "advf", "pstf"] false
    maskAll (upTo start stop) ["cfar"] true
    reorderFrom start stop (upTo (start + 1) stop) 0

/-! ### Characters -/

def splitVowels : List Nat := [0x17BE, 0x17BF, 0x17C0, 0x17C4, 0x17C5]

def normalise (codes : List Nat) : Shape (List Nat) := do
  let parts := codes.map fun c => if splitVowels.contains c then [0x17C1, c] else Text.decompose [c]
  ofExcept (joinPairs (← get).characters none parts.flatten)

def rules : SyllableRules := { kinds, classify, repha := some "Repha", reorder }

end GlyphRules.Shaping.Khmer
