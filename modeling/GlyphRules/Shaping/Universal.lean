import GlyphRules.Shaping.Syllable
import GlyphRules.Shaping.Normalise

/-! Syllables by the general rules that most complex scripts share.

Categories come from one property alone. A reph goes behind the base, a vowel on the
left before it. -/
namespace GlyphRules.Shaping.Universal
open Pattern Shape

def classify (i : Item) : Shape Item := do
  let characters := (← get).characters
  let name := i.codepoint.bind fun c => characters.get? c "USE_Category"
  return { i with syllabicCategory := some (.named (name.getD "X")), positionalCategory := some "x" }

/-! ### Syllables -/

def halant : Pattern := oneOf "H" ["HVM", "Sk"]

def consonantModifiers : Pattern :=
  many (one "CMAbv") ++ many (one "CMBlw") ++
    many (alt (halant ++ one "B") (one "SUB") ++ opt (one "CMAbv") ++ many (one "CMBlw"))
def medialConsonants : Pattern := opt (one "MPre") ++ opt (one "MAbv") ++ opt (one "MBlw") ++ opt (one "MPst")
def dependentVowels : Pattern := many (one "VPre") ++ many (one "VAbv") ++ many (one "VBlw") ++ many (one "VPst")
def vowelModifiers : Pattern :=
  opt (one "HVM") ++ many (one "VMPre") ++ many (one "VMAbv") ++ many (one "VMBlw") ++ many (one "VMPst")
def finalConsonants : Pattern := many (one "FAbv") ++ many (one "FBlw") ++ many (one "FPst")
def finalModifiers : Pattern := alt (many (one "FMAbv") ++ many (one "FMBlw")) (opt (one "FMPst"))
def syllableStart : Pattern := opt (oneOf "R" ["CS"]) ++ oneOf "B" ["GB"]
def syllableMiddle : Pattern :=
  consonantModifiers ++ medialConsonants ++ dependentVowels ++ vowelModifiers ++ many (one "Sk" ++ one "B")
def syllableTail : Pattern := syllableMiddle ++ finalConsonants ++ finalModifiers
def joinedNumerals : Pattern := many (one "HN" ++ one "N") ++ one "HN"
def numerals : Pattern := oneOrMore (one "HN" ++ one "N")
def symbolTail : Pattern := alt (oneOrMore (one "SMAbv") ++ many (one "SMBlw")) (oneOrMore (one "SMBlw"))
/-- Names that are no categories are read letter by letter, and no entry begins with a letter. -/
def hieroglyphs : Pattern :=
  let segment (c : Char) : Pattern := letter c ++ letter 'S' ++ many (letter 'E')
  alt (letter 'S' ++ oneOrMore (letter 'B'))
    (letter 'S' ++ many (letter 'B') ++ segment 'G' ++ many (segment 'J' ++ opt (segment 'G')))

def kinds : SyllableKinds :=
  [("independent_cluster", one "O"),
   ("virama_terminated_cluster", syllableStart ++ consonantModifiers ++ halant),
   ("sakot_terminated_cluster", syllableStart ++ syllableMiddle ++ one "Sk"),
   ("standard_cluster", syllableStart ++ syllableTail),
   ("number_joiner_terminated_cluster", one "N" ++ joinedNumerals),
   ("numeral_cluster", one "N" ++ opt numerals),
   ("symbol_cluster", oneOf "S" ["GB"] ++ opt symbolTail),
   ("hieroglyph_cluster", hieroglyphs),
   ("broken_cluster", opt (one "R") ++ alt (alt (alt syllableTail joinedNumerals) numerals) symbolTail),
   ("other", any)]

/-! ### Order -/

def postBase : List String :=
  ["FAbv", "FBlw", "FPst", "MAbv", "MBlw", "MPst", "MPre", "VAbv", "VBlw", "VPst", "VPre", "VMAbv", "VMBlw",
   "VMPst", "VMPre"]

def isHalant (i : Nat) : Shape Bool := do
  if ← isCat i ["H", "HVM"] then return !(← ofExcept (← item i).needState).ligated
  return false

/-- Where a reph goes: before the first item after the base, or to the end. -/
def rephGoal (stop : Nat) : List Nat → Shape (Option Nat)
  | [] => return none
  | i :: rest => do
    let after ← if ← isCat i postBase then pure true else isHalant i
    if after then return some (i - 1)
    if i + 1 == stop then return some i
    rephGoal stop rest

/-- Vowels on the left go to the start, or behind the last virama before them. -/
def moveVowels : List Nat → Nat → Shape Unit
  | [], _ => return
  | i :: rest, goal => do
    let goal ← if ← isHalant i then pure (i + 1) else pure goal
    if (← isCat i ["VPre", "VMPre"]) && goal < i then moveItem i goal
    moveVowels rest goal

def reorderSyllable (start stop : Nat) : Shape Unit := do
  if (← cat start) == some "R" then
    match ← rephGoal stop (upTo (start + 1) stop) with
    | some goal => moveItem start goal
    | none => pure ()
  moveVowels (upTo start stop) start

def ordered : List String :=
  ["virama_terminated_cluster", "sakot_terminated_cluster", "standard_cluster", "broken_cluster"]

def reorder (kind : String) (start stop : Nat) : Shape Unit := do
  if ordered.contains kind then reorderSyllable start stop

/-! ### Masks and marks -/

def maskReph : Shape Unit :=
  eachSyllable fun _ start stop => do
    let limit := if (← cat start) == some "R" then 1 else Nat.min 3 (stop - start)
    for i in upTo start stop do
      maskItem i "rphf" (start + limit < i)

def forgetSubstitutions : Shape Unit :=
  onBuffer fun b => { b with items := b.items.map fun i =>
    { i with state := i.state.map fun s => { s with substituted := false } } }

def markSubstituted (name : String) : Shape Unit := do
  let items := (← buffer).items
  let _ ← ofExcept (items.mapM Item.needState)
  onBuffer fun b => { b with items := b.items.map fun i =>
    if (i.state.map (·.substituted)).getD false then { i with syllabicCategory := some (.named name) } else i }

def normalise (codes : List Nat) : Shape (List Nat) := do
  ofExcept (joinPairs (← get).characters none (codes.flatMap fun c => Text.decompose [c]))

def rules : SyllableRules := { kinds, classify, repha := some "R", reorder }

end GlyphRules.Shaping.Universal
