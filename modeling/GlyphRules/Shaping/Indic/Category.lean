import GlyphRules.Shaping.Session

/-! The categories of characters in a syllable.

The category and the place of a character follow from two Unicode properties; some
characters of Indic scripts are different. -/
namespace GlyphRules.Shaping

def syllabicCategories : List (String × String) :=
  [("Other", "X"), ("Avagraha", "Symbol"), ("Bindu", "SM"), ("Brahmi_Joining_Number", "PLACEHOLDER"),
   ("Cantillation_Mark", "A"), ("Consonant", "C"), ("Consonant_Dead", "C"), ("Consonant_Final", "CM"),
   ("Consonant_Head_Letter", "C"), ("Consonant_Killer", "M"), ("Consonant_Medial", "CM"),
   ("Consonant_Placeholder", "PLACEHOLDER"), ("Consonant_Preceding_Repha", "Repha"),
   ("Consonant_Prefixed", "X"), ("Consonant_Subjoined", "CM"), ("Consonant_Succeeding_Repha", "CM"),
   ("Consonant_With_Stacker", "CS"), ("Gemination_Mark", "SM"), ("Invisible_Stacker", "Coeng"),
   ("Joiner", "ZWJ"), ("Modifying_Letter", "X"), ("Non_Joiner", "ZWNJ"), ("Nukta", "N"),
   ("Number", "PLACEHOLDER"), ("Number_Joiner", "PLACEHOLDER"), ("Pure_Killer", "M"),
   ("Register_Shifter", "RS"), ("Syllable_Modifier", "SM"), ("Tone_Letter", "X"), ("Tone_Mark", "N"),
   ("Virama", "H"), ("Visarga", "SM"), ("Vowel", "V"), ("Vowel_Dependent", "M"), ("Vowel_Independent", "V"),
   ("Symbol", "Symbol"), ("Ra", "Ra"), ("Dotted_Circle", "DOTTEDCIRCLE")]

def placeOfProperty (property : String) : Place :=
  match property with
  | "Left" => .preConsonant
  | "Top" | "Top_And_Left" => .above
  | "Bottom" | "Top_And_Bottom" => .below
  | "Right" | "Bottom_And_Right" | "Left_And_Right" | "Top_And_Bottom_And_Left" | "Top_And_Bottom_And_Right"
  | "Top_And_Left_And_Right" | "Top_And_Right" => .post
  | "Overstruck" => .afterMain
  | "Visual_Order_Left" => .preMatra
  | _ => .stop

def classifyByProperties (characters : Characters) (i : Item) : Item :=
  let get (property : String) := i.codepoint.bind fun c => characters.get? c property
  let positional := (get "Indic_Positional_Category").getD "x"
  { i with
    syllabicCategory := some (.named
      ((Dict.get? syllabicCategories ((get "Indic_Syllabic_Category").getD "Other")).getD "X"))
    positionalCategory := some positional
    place := some (placeOfProperty positional) }

def consonantCategories : List String := ["C", "CS", "Ra", "V", "PLACEHOLDER", "DOTTEDCIRCLE", "CM"]

/-! ### Indic scripts -/

namespace Indic

inductive RephMode where
  | implicit
  | explicit
  | logical
deriving DecidableEq

/-- What differs between Indic scripts. -/
structure Config where
  oldSpec : Bool
  virama : Nat
  /-- Whether the base is sought by the rule of Sinhala. -/
  sinhala : Bool := false
  rephMode : RephMode := .implicit

def configOf (script : Option String) : Config :=
  match script with
  | some "Devanagari" => { oldSpec := true, virama := 0x094D }
  | some "Bengali" => { oldSpec := true, virama := 0x09CD }
  | some "Gurmukhi" => { oldSpec := true, virama := 0x0A4D }
  | some "Gujarati" => { oldSpec := true, virama := 0x0ACD }
  | some "Oriya" => { oldSpec := true, virama := 0x0B4D }
  | some "Tamil" => { oldSpec := true, virama := 0x0BCD }
  | some "Telugu" => { oldSpec := true, virama := 0x0C4D, rephMode := .explicit }
  | some "Kannada" => { oldSpec := true, virama := 0x0CCD }
  | some "Malayalam" => { oldSpec := true, virama := 0x0D4D, rephMode := .logical }
  | some "Sinhala" => { oldSpec := false, virama := 0x0DCA, sinhala := true, rephMode := .explicit }
  | _ => { oldSpec := false, virama := 0 }

/-- The letters ra of Indic scripts. -/
def ras : List Nat :=
  [0x0930, 0x09B0, 0x09F0, 0x0A30, 0x0AB0, 0x0B30, 0x0BB0, 0x0C30, 0x0CB0, 0x0D30, 0x0DBB, 0x179A]

/-- Where a dependent vowel goes that stands right of its consonant. -/
def rightMatra (script : String) (code : Nat) : Place :=
  match script with
  | "Telugu" => if code ≤ 0x0C42 then .beforeSub else .afterSub
  | "Kannada" => if code < 0x0CC3 || 0x0CD6 < code then .beforeSub else .afterSub
  | "Bengali" | "Gurmukhi" | "Gujarati" | "Oriya" | "Tamil" | "Malayalam" => .afterPost
  | _ => .afterSub

def topMatra (script : String) : Place :=
  match script with
  | "Gurmukhi" => .afterPost
  | "Oriya" => .afterMain
  | "Telugu" | "Kannada" => .beforeSub
  | _ => .afterSub

def bottomMatra (script : String) : Place :=
  match script with
  | "Gurmukhi" | "Gujarati" | "Tamil" | "Malayalam" => .afterPost
  | "Telugu" => .beforeSub
  | _ => .afterSub

def matraPlace (script : String) (code : Nat) (place : Place) : Place :=
  match place with
  | .preConsonant => .preMatra
  | .post => rightMatra script code
  | .above => topMatra script
  | .below => bottomMatra script
  | p => p

def exception? (c : Nat) : Option String :=
  if 0x0953 ≤ c && c ≤ 0x0954 then some "SM"
  else if (0x0A72 ≤ c && c ≤ 0x0A73) || (0x1CF5 ≤ c && c ≤ 0x1CF6) then some "C"
  else if (0x1CE2 ≤ c && c ≤ 0x1CE8) || c == 0x1CED then some "A"
  else if (0xA8F2 ≤ c && c ≤ 0xA8F7) || (0x1CE9 ≤ c && c ≤ 0x1CEC) || (0x1CEE ≤ c && c ≤ 0x1CF1) then some "Symbol"
  else if c == 0x0A51 then some "M"
  else if c == 0x11301 || c == 0x11303 then some "SM"
  else if c == 0x1133B || c == 0x1133C || c == 0x0AFB then some "N"
  else if c == 0x0980 || c == 0x09FC || c == 0x0C80 || c == 0x2010 || c == 0x2011 then some "PLACEHOLDER"
  else if c == 0x25CC then some "DOTTEDCIRCLE"
  else none

def classify (characters : Characters) (i : Item) : Except Fault Item := do
  let i := classifyByProperties characters i
  match i.codepoint with
  | none => throw .wrongKind
  | some c =>
    let name := (exception? c).getD ((i.categoryName.toOption.bind id).getD "")
    let place := if c == 0x0A51 then .below else i.place.getD .stop
    let (name, place) ←
      if consonantCategories.contains name then
        pure (if ras.contains c then "Ra" else name, Place.base)
      else if name == "M" then do
        pure (name, matraPlace (← characters.get c "Script") c place)
      else if ["SM", "A", "Symbol"].contains name then pure (name, .modifier)
      else pure (name, place)
    return { i with
      syllabicCategory := some (.named name)
      place := some (if c == 0x0B01 then .beforeSub else place) }

end Indic
end GlyphRules.Shaping
