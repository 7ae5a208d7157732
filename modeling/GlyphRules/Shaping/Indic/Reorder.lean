import GlyphRules.Shaping.Syllable
import GlyphRules.Shaping.Indic.Category
import GlyphRules.Shaping.Indic.Machine
import GlyphRules.Shaping.Normalise

/-! Indic syllables put in order.

The base of a syllable is sought from its end. Items are given places around it and sorted by them;
then features are masked where they have no business. After the basic features the base is sought
again. -/
namespace GlyphRules.Shaping.Indic
open Shape

def config : Shape Config := do return Indic.configOf (← buffer).script

def isJoiner (i : Int) : Shape Bool := isCat i ["ZWJ", "ZWNJ"]

def isConsonant (i : Int) : Shape Bool := isCat i consonantCategories

def classifyItem (i : Item) : Shape Item := do ofExcept (Indic.classify (← get).characters i)

/-! ### Places of consonants -/

def consonantPlace (code : Nat) : Shape Place := do
  let virama := (← config).virama
  let consonant ← looseGlyph code
  let virama ← looseGlyph virama
  let either (feature : String) : Shape Bool := do
    if ← wouldSubstitute feature [virama, consonant] then return true
    wouldSubstitute feature [consonant, virama]
  if ← either "blwf" then return .below
  if ← either "vatu" then return .below
  if ← either "pstf" then return .post
  if ← either "pref" then return .post
  return .base

/-- Find the places of all consonants; the rules of Sinhala need none. -/
def placeConsonants : Shape Unit := do
  if (← config).sinhala then return
  for ix in List.range (← buffer).items.length do
    if (← pos ix) == .base then
      match (← item ix).codepoint with
      | none => throw .wrongKind
      | some c => setPos ix (← consonantPlace c)

/-! ### The base -/

def skipJoiners (stop : Nat) : Nat → Nat → Shape Nat
  | 0, i => return i
  | fuel + 1, i => do
    if i < stop then
      if ← isJoiner i then skipJoiners stop fuel (i + 1) else return i
    else return i

/-- Seek the base from the end: the last consonant that is neither below nor, unless something
is below, after. The second number is where the search stopped. -/
def lastBase (start limit : Nat) : Nat → Nat → Nat → Bool → Shape (Nat × Nat)
  | 0, i, base, _ => return (base, i)
  | fuel + 1, i, base, seenBelow => do
    let i := i - 1
    if ← isConsonant i then
      let p ← pos i
      if p != .below && (p != .post || seenBelow) then return (i, i)
      if i ≤ limit then return (i, i)
      lastBase start limit fuel i i (seenBelow || p == .below)
    else
      let stopped ← if start < i then do
          if (← cat i) == some "ZWJ" then pure ((← cat (i - 1 : Nat)) == some "H") else pure false
        else pure false
      if stopped || i ≤ limit then return (base, i)
      lastBase start limit fuel i base seenBelow

/-- Seek the base from the start: consonants up to one that follows a joiner. -/
def sinhalaBase (limit : Nat) (base : Nat) : List Nat → Option Nat → Shape (Nat × Option Nat)
  | [], last => return (base, last)
  | i :: rest, _ => do
    if ← isConsonant i then
      let joined ← if limit < i then do pure ((← cat (i - 1 : Nat)) == some "ZWJ") else pure false
      if joined then return (base, some i)
      sinhalaBase limit i rest (some i)
    else sinhalaBase limit base rest (some i)

/-- Whether the first items of a syllable can become a reph, as far as joiners tell. -/
def mayFormReph (start stop : Nat) : Shape Bool := do
  if Dict.has (← get).book.features "rphf" && start + 3 ≤ stop then
    match (← config).rephMode with
    | .implicit => return !(← isJoiner (start + 2 : Nat))
    | .explicit => return (← cat (start + 2 : Nat)) == some "ZWJ"
    | .logical => return false
  else return false

def formsReph (start : Nat) : Shape Bool := do
  let items := (← buffer).items
  if ← wouldSubstitute "rphf" (range items start (start + 2 : Nat)) then return true
  else wouldSubstitute "rphf" (range items start (start + 3 : Nat))

/-- Whether the syllable begins with a reph, and where the rest begins. -/
def findReph (start stop : Nat) : Shape (Bool × Nat) := do
  if ← mayFormReph start stop then
    if ← formsReph start then return (true, ← skipJoiners stop stop (start + 2))
    else return (false, start)
  else if (← config).rephMode == .logical then
    if (← cat start) == some "Repha" then return (true, ← skipJoiners stop stop (start + 1))
    else return (false, start)
  else return (false, start)

/-- The base of a syllable, whether it has a reph, and the index that was looked at last. -/
def findBase (start stop : Nat) : Shape (Nat × Bool × Option Nat) := do
  let (hasReph, limit) ← findReph start stop
  let base := if hasReph then start else stop
  let (base, last) ←
    if (← config).sinhala then do
      let base := if hasReph then base else limit
      let (base, last) ← sinhalaBase limit base (upTo limit stop) none
      for i in upTo (base + 1) stop do
        if ← isConsonant i then setPos i .below
      pure (base, if base + 1 < stop then some (stop - 1) else last)
    else do
      let (base, last) ← lastBase start limit (stop + 1) stop base false
      pure (base, some last)
  let hasReph := hasReph && !(base == start && limit ≤ base + 2)
  return (base, hasReph, last)

/-! ### Places around the base -/

/-- The first consonant after a dependent vowel is a final one. -/
def markFinal (base stop : Nat) : Shape Unit := do
  let mut seen := false
  let mut done := false
  for i in upTo (base + 1) stop do
    if !done then
      if !seen then
        if (← cat i) == some "M" then seen := true
      if seen then
        if ← isConsonant i then
          setPos i .final
          done := true

/-- The last index after `i` that stops a halant on its way to the end. -/
def halantStop (i : Nat) (single : Bool) : Nat → Nat → Shape Nat
  | 0, j => return j
  | fuel + 1, j => do
    if i < j then
      if ← isConsonant j then return j
      if single then
        if (← cat j) == some "H" then return j
      halantStop i single fuel (j - 1)
    else return j

/-- In old fonts the first halant after the base goes behind the consonants. -/
def moveHalant (base stop : Nat) : Shape Unit := do
  let single := (← buffer).script == some "Kannada"
  let mut done := false
  for i in upTo (base + 1) stop do
    if !done then
      if (← cat i) == some "H" then
        done := true
        let j ← halantStop i single stop (stop - 1)
        if (← cat j) != some "H" && i < j then
          moveItem i j
          sayWith "Moved double halant"

def placeBeforeMatra (start : Nat) : Nat → Shape (Option Place)
  | 0 => return none
  | j + 1 => do
    if start < j + 1 then
      let p ← pos j
      if p != .preMatra then return some p
      placeBeforeMatra start j
    else return none

def attachMarks (start stop : Nat) : Shape Unit := do
  let mut last := Place.start
  for i in upTo start stop do
    if ← isCat i ["ZWJ", "ZWNJ", "N", "RS", "CM", "H"] then
      setPos i last
      if (← cat i) == some "H" && last == .preMatra then
        match ← placeBeforeMatra start i with
        | some p => setPos i p
        | none => pure ()
    else
      let p ← pos i
      if p != .modifier then last := p

/-- What stands between the base and a consonant after it goes with the consonant. -/
def attachToConsonants (base stop : Nat) : Shape Unit := do
  let mut last := base
  for i in upTo (base + 1) stop do
    if ← isConsonant i then
      let p ← pos i
      for j in upTo (last + 1) i do
        if (← pos j).number < Place.modifier.number then setPos j p
      last := i
    else if (← cat i) == some "M" then last := i

/-- Follow the numbers of moved items in a circle, marking each that is met. -/
def followMoved (start : Nat) (goal : Int) : Nat → Int → Shape Unit
  | 0, _ => throw .unfinished
  | fuel + 1, j => do
    if j == goal then return
    match (← item j).syllableIndex with
    | none => throw .missingPart
    | some n =>
      alterItem j fun x => { x with syllableIndex := some 255 }
      followMoved start goal fuel (start + n)

/-! ### Masks -/

def maskFeatures (base start stop : Nat) : Shape Unit := do
  let mut afterReph := false
  for i in upTo start stop do
    if (← pos i) != .reph then afterReph := true
    maskItem i "rphf" afterReph
    maskItem i "half" (base < i)
    maskItem i "blwf" (i < base)
    maskItem i "abvf" (i < base)
    maskItem i "pstf" (i < base)

/-- Let the forms before the base work on the first pairs that they fit. -/
def maskPrebase (stop : Nat) : Nat → Nat → Shape Unit
  | 0, _ => return
  | fuel + 1, i => do
    if i + 2 < stop then
      if ← wouldSubstitute "pref" [← item i, ← item (i + 1 : Nat)] then
        maskItem i "pref" false
        maskItem (i + 1 : Nat) "pref" false
        maskPrebase stop fuel (i + 2)
      else
        maskItem i "pref" true
        maskPrebase stop fuel (i + 1)

/-- No half forms before a joiner that forbids them. -/
def maskHalf (start : Nat) : Nat → Shape Unit
  | 0 => return
  | j + 1 => do
    maskItem j "half" true
    if start < j then
      if !(← isConsonant j) then maskHalf start j

def maskSyllable (base start stop : Nat) : Shape Unit := do
  maskFeatures base start stop
  for j in List.range (base + 1) do
    maskItem j "pref" true
  maskPrebase stop stop (base + 1)
  for i in upTo (start + 1) stop do
    if (← cat i) == some "ZWNJ" then maskHalf start i

/-! ### The order -/

/-- In Kannada a joiner after the halant of a first ra goes before the halant. -/
def swapJoiner (start stop : Nat) : Shape Unit := do
  if (← buffer).script == some "Kannada" && start + 3 ≤ stop then
    if (← cat start) == some "Ra" then
      if (← cat (start + 1 : Nat)) == some "H" then
        if (← cat (start + 2 : Nat)) == some "ZWJ" then
          moveItem (start + 2) (start + 1)

/-- What stands before the base is so marked, and the base; but what is marked is the item before it, if
there is one, or else the last one that was looked at. -/
def placeBase (start stop base : Nat) (last : Option Nat) : Shape Unit := do
  for i in upTo start base do
    let p ← pos i
    setPos i (if p.number < Place.preConsonant.number then p else .preConsonant)
  if base < stop then
    match if start < base then some (base - 1) else last with
    | some i => setPos i .base
    | none => throw .unsetName

/-- Give the items of a syllable their places around its base. -/
def placeItems (start stop : Nat) (index : Option Int) : Shape Unit := do
  let (base, hasReph, last) ← findBase start stop
  let number := (index.map toString).getD ""
  say ("Base consonant for syllable " ++ number ++ " is " ++ ((← item base).glyph.getD "None"))
  placeBase start stop base last
  markFinal base stop
  if hasReph then alterItem start fun x => { x with syllabicCategory := some .reph }
  if (← config).oldSpec then moveHalant base stop
  attachMarks start stop
  attachToConsonants base stop

def numberItems (start stop : Nat) (number : Nat → Option Int) : Shape Unit :=
  (upTo start stop).forM fun (i : Nat) => alterItem i fun x => { x with syllableIndex := number i }

/-- The first item with the place of the base, or the end. -/
def baseIn (items : List Item) (start stop : Nat) : Nat :=
  ((upTo start stop).find? fun i => (items[i]?.bind (·.place)) == some .base).getD stop

/-- In new fonts the numbers of the moved items are followed. -/
def followNumbers (base start stop : Nat) : Shape Unit := do
  if !((← config).oldSpec || stop - start > 127) then
    let count := (← buffer).items.length
    for i in upTo base stop do
      match (← item i).syllableIndex with
      | none => throw .missingPart
      | some n => if n != 255 then followMoved start i (2 * count + 600) (start + n)

/-- Sort the items of a syllable by their places and find the base again. Meanwhile they are numbered. -/
def sortItems (start stop : Nat) (index : Option Int) : Shape Nat := do
  numberItems start stop fun i => some ((start : Int) - i)
  sortByPlace start stop
  let base := baseIn (← buffer).items start stop
  followNumbers base start stop
  numberItems start stop fun _ => index
  return base

def reorderSyllable (start stop : Nat) : Shape Unit := do
  swapJoiner start stop
  let index := (← item start).syllableIndex
  placeItems start stop index
  let base ← sortItems start stop index
  sayWith "After initial reordering"
  maskSyllable base start stop

def reorder (kind : String) (start stop : Nat) : Shape Unit :=
  if kind == "standalone_cluster" || kind == "consonant_syllable" then reorderSyllable start stop else pure ()

/-! ### After the basic features -/

/-- General categories of letters, marks and the like. -/
def wordCategories : List String := ["Cf", "Cn", "Co", "Cs", "Ll", "Lm", "Lo", "Lt", "Lu", "Mc", "Me", "Mn"]

def restoreViramas (start stop : Nat) (virama : String) : Shape Unit := do
  for i in upTo start stop do
    let x ← item i
    if x.glyph == some virama then
      let s ← ofExcept x.needState
      if s.ligated && s.multiplied then
        alterItem i fun x => { x with
          syllabicCategory := some (.named "H")
          state := x.state.map fun s => { s with ligated := false, multiplied := false } }

def skipHalants (stop : Nat) : Nat → Nat → Shape Nat
  | 0, i => return i
  | fuel + 1, i => do
    if i < stop then
      if (← cat i) == some "H" then skipHalants stop fuel (i + 1) else return i
    else return i

/-- A form before the base that was not made leaves its consonant as the base: what
follows then is not defined. -/
def tryPrebase (stop : Nat) : List Nat → Shape Unit
  | [] => return
  | i :: rest => do
    let x ← item i
    if ((x.masks.find? (·.1 == "pref")).map (·.2)).getD true then tryPrebase stop rest
    else
      let s ← ofExcept x.needState
      if s.substituted && s.ligated && !s.multiplied then return
      let base ← skipHalants stop stop i
      let _ ← item base
      throw .undefinedName

def followBelow (stop : Nat) : Nat → Nat → Nat → Shape Nat
  | 0, base, _ => return base
  | fuel + 1, base, i => do
    if i < stop then
      let i ← skipJoiners stop stop i
      if i == stop then return base
      if (← cat i) != some "H" then return base
      let i ← skipJoiners stop stop (i + 1)
      let below ← if i < stop then do
          if ← isConsonant i then pure ((← pos i) == .below) else pure false
        else pure false
      followBelow stop fuel (if below then i else base) (i + 1)
    else return base

def seekBase (start stop : Nat) (prebase : Bool) : Nat → Nat → Shape Nat
  | 0, base => return base
  | fuel + 1, base => do
    if base < stop then
      if (← pos base).number ≥ Place.base.number then
        if prebase && base + 1 < stop then tryPrebase stop (upTo (base + 1) stop)
        let base ← if (← buffer).script == some "Malayalam" then followBelow stop stop base (base + 1) else pure base
        if start < base && (← pos base).number > Place.base.number then return base - 1
        return base
      else seekBase start stop prebase fuel (base + 1)
    else return base

/-- Put the items of a syllable in order once more, and mask the initial forms. -/
def finish (start stop : Nat) : Shape Unit := do
  let virama ← looseGlyph (← config).virama
  let viramaGlyph := virama.glyph.getD ""
  if viramaGlyph != ".notdef" then restoreViramas start stop viramaGlyph
  let prebase := (← buffer).items.any fun i => (i.masks.find? (·.1 == "pref")).any (!·.2)
  let base ← seekBase start stop prebase (stop + 1) start
  if base == stop then
    -- Without a base the second item of the buffer is looked at, and only if there was a virama.
    if viramaGlyph == ".notdef" then throw .unsetName
    let _ ← cat 1
  for i in upTo start stop do
    maskItem i "init" true
  if (← pos start) == .preMatra then
    let initial ← if start == 0 then pure true else do
      let before ← item (start - 1 : Nat)
      let s ← get
      let code := s.font.codepointOf (before.glyph.getD "")
      pure (!(wordCategories.contains (← ofExcept (s.characters.get code "General_Category"))))
    if initial then maskItem start "init" false

/-! ### Characters -/

/-- Vowels of Sinhala that are written on two sides. -/
def splitMatras : List Nat := [0x0DDA, 0x0DDC, 0x0DDD, 0x0DDE]

/-- A character taken apart, as far as the script wants it. -/
def takeApart (code : Nat) : Shape (List Nat) := do
  if [0x0931, 0x09DC, 0x09DD, 0x0B94].contains code then return [code]
  if splitMatras.contains code then
    let glyph ← looseGlyph code
    return if ← wouldSubstitute "pstf" [glyph] then [0x0DD9, code] else [code]
  return Text.decompose [code]

def normalise (codes : List Nat) : Shape (List Nat) := do
  let parts ← codes.mapM takeApart
  ofExcept (joinPairs (← get).characters (some ⟨0x09AF, 0x09BC, 0x09DF⟩) parts.flatten)

def rules : SyllableRules :=
  { kinds := Indic.kinds
    classify := classifyItem
    repha := some "Repha"
    prepare := placeConsonants
    reorder := reorder
    finish := finish }

end GlyphRules.Shaping.Indic
