import GlyphRules.Shaping.Arabic
import GlyphRules.Shaping.Hangul
import GlyphRules.Shaping.Indic.Reorder
import GlyphRules.Shaping.Khmer
import GlyphRules.Shaping.Myanmar
import GlyphRules.Shaping.Universal
import GlyphRules.Shaping.Plan
import GlyphRules.Shaping.Segment
import GlyphRules.Book.Reference
import GlyphRules.Book.Languages

/-! Shaping.

The script of the buffer decides how it is shaped. Characters are made uniform and become glyphs;
then the features of the plan run, those that substitute before those that place; at the end marks
follow what they hang on. -/
namespace GlyphRules.Shaping

/-! ### Features of the user -/

def isWordChar (c : Char) : Bool := c.isAlphanum || c == '_' || 0x80 ≤ c.toNat

/-- One feature: a tag with a sign before it; a minus turns it off. -/
def readUserFeature (text : String) : UserFeature :=
  let s := Text.trimRight text.toList
  let (sign, rest) := match s with
    | '+' :: rest => ('+', rest)
    | '-' :: rest => ('-', rest)
    | rest => (' ', rest)
  match rest.takeWhile isWordChar with
  | [] => { tag := String.ofList s, on := true }
  | tag => { tag := String.ofList tag, on := sign != '-' }

def readUserFeatures (text : String) : List UserFeature := (Text.split ',' text).map readUserFeature

/-! ### Choosing -/

namespace Shape

/-- How a script is shaped, which may depend on the scripts that the rules speak of. -/
def chooseKind : Shape ShaperKind := do
  match (← buffer).script with
  | none => return .base
  | some script =>
    if script == "Arabic" then return .arabic
    match Dict.get? joiningScripts script with
    | some tag => return if ← onBook (Act.hasScript tag) then .arabic else .base
    | none => pure ()
    if ["Thai", "Lao", "Hebrew"].contains script then throw .undefinedName
    if script == "Hangul" then return .hangul
    match Dict.get? indicScripts script with
    | some none => return .indic
    | some (some tag) => return if ← onBook (Act.hasScript tag) then .universal else .indic
    | none => pure ()
    if script == "Khmer" then return .khmer
    if script == "Myanmar" then return if ← onBook (Act.hasScript "mymr") then .base else .myanmar
    return if universalScripts.contains script then .universal else .base

end Shape

/-- What a kind of shaping knows about syllables. -/
def ShaperKind.rules? : ShaperKind → Option SyllableRules
  | .indic => some Indic.rules
  | .khmer => some Khmer.rules
  | .myanmar => some Myanmar.rules
  | .universal => some Universal.rules
  | _ => none

/-! ### Planning -/

/-- Syllables first, then the basic features one after another, then the rest. -/
def syllablePlan (basic other : List String) (p : Plan) : Plan :=
  let p := ((p.pause .cutSyllables).add ["ccmp", "locl"]).pause .reorder
  let p := basic.foldl (fun p f => (p.addOne f).next) p
  (p.pause .reorderAgain).add other

def ShaperKind.collect (k : ShaperKind) (p : Plan) : Plan :=
  match k with
  | .base => p
  | .arabic =>
    ((((p.add ["ccmp", "locl"]).next.add Arabic.forms).next.add ["rlig", "rclt", "calt"]).next).add ["mset"]
  | .hangul => p.add ["ljmo", "vjmo", "tjmo"]
  | .indic => syllablePlan ["nukt", "akhn", "rphf", "rkrf", "pref", "blwf", "abvf", "half", "pstf", "vatu", "cjct"]
      ["init", "pres", "abvs", "blws", "psts", "haln", "calt", "clig"] p
  | .myanmar => syllablePlan ["rphf", "pref", "blwf", "pstf"] ["pres", "abvs", "blws", "psts"] p
  | .khmer =>
    ((((p.pause .cutSyllables).pause .reorder).add
      ["locl", "ccmp", "pref", "blwf", "abvf", "pstf", "cfar"]).next).add ["pres", "blws", "abvs", "psts"]
  | .universal =>
    let p := ((p.pause .cutSyllables).add ["locl", "ccmp", "nukt", "akhn"]).pause .forgetSubstitutions
    let p := ((p.add ["rphf"]).pause .markReph).pause .forgetSubstitutions
    let p := ((p.add ["pref"]).pause .markPrebase).add ["rkrf", "abvf", "blwf", "half", "pstf", "vatu", "cjct"]
    ((p.pause .reorder).add ["isol", "init", "medi", "fina"]).next.add ["abvs", "blws", "haln", "pres", "psts"]

def ShaperKind.override (k : ShaperKind) (p : Plan) : Plan :=
  match k with
  | .hangul => p.remove "calt"
  | .indic => p.remove "liga"
  | .khmer => (p.addOne "clig").remove "liga"
  | _ => p

def planFor (k : ShaperKind) (direction : Option String) (user : List UserFeature) : Plan :=
  let p := (Plan.empty.addOne "rvrn").next
  let p := match direction with
    | some "LTR" => p.add ["ltra", "ltrm"]
    | some "RTL" => p.add ["rtla", "rtlm"]
    | _ => p
  let p := k.collect (p.add ["frac", "numr", "dnom", "rand"])
  let p := p.add ["abvm", "blwm", "ccmp", "locl", "mark", "mkmk", "rlig"]
  let p := if direction == some "LTR" || direction == some "RTL" then
      p.add ["calt", "clig", "curs", "dist", "kern", "liga", "rclt"]
    else p.addOne "vert"
  k.override (user.foldl (fun p u => if u.on then p.addOne u.tag else p.remove u.tag) p)

namespace Shape

/-! ### Characters -/

def preprocess (k : ShaperKind) (codes : List Nat) : Shape (List Nat) := do
  match k with
  | .base | .arabic => return codes
  | .hangul => ofExcept (Hangul.composeText (← get).font codes)
  | _ => return separateVowels ((← buffer).script.getD "") codes

def normalise (k : ShaperKind) (codes : List Nat) : Shape (List Nat) := do
  match k with
  | .indic => Indic.normalise codes
  | .khmer => Khmer.normalise codes
  | .universal => Universal.normalise codes
  | _ =>
    let s ← get
    ofExcept (composeCharacters s.characters s.font codes)

def mapCharacters (k : ShaperKind) : Shape Unit := do
  let codes := (← buffer).items.map fun i => i.codepoint.getD 0
  storeCharacters (← normalise k (← preprocess k codes))
  mapToGlyphs
  sayWith "Initial glyph mapping"
  if k == .arabic then joinArabic

/-! ### Features -/

/-- The routines of a feature that are meant for the script and language of the buffer. A
book that speaks of one language at most does not tell them apart. -/
def forLanguage (b : Buffer) (book : Book) (routines : List RoutineId) : Except Fault (List RoutineId) := do
  let undivided := match book.scripts with
    | [] => true
    | [(_, languages)] => languages.length < 2
    | _ => false
  if !isGiven b.script || undivided then return routines
  let script := scriptTag b.script
  let language := if isGiven b.language then b.language.getD "" else "dflt"
  let systems (i : RoutineId) := (book.routine i).languages.systems?
  if Dict.has book.scripts script && (script, language) != ("DFLT", "dflt") then
    routines.filterM fun i => do return (← systems i).contains (script, language)
  else
    routines.filterM fun i => do
      let l ← systems i
      return l.isEmpty || l.contains ("DFLT", language)

def routineOf : Lookup → Except Fault RoutineId
  | .bare i => .ok i
  | .ref { routine := some i, .. } => .ok i
  | .ref { routine := none, .. } => .error .missingPart

def routinesOf (tags : List String) : Shape (List (RoutineId × String)) := do
  let s ← get
  let found ← ofExcept (tags.mapM fun tag => do
    match Dict.get? s.book.features tag with
    | none => return []
    | some calls => return (← forLanguage s.buffer s.book (← calls.mapM routineOf)).map fun i => (i, tag))
  return found.flatten

def runRoutine (stage : Stage) (id : RoutineId) (feature : String) : Shape Unit := do
  let book := (← get).book
  let routine := book.routine id
  let name := routine.name.getD "None" ++ " (" ++ feature ++ ")"
  sayWith ("Before " ++ name)
  match routine.content with
  | .extension _ => throw .wrongKind
  | _ => applyRoutine book.namedClasses (some stage) (some feature) id
  sayWith ("After " ++ name)

/-- What a script does between features. -/
def runPause (k : ShaperKind) (p : Pause) : Shape Unit := do
  match k.rules? with
  | none => return
  | some r =>
    match p with
    | .cutSyllables =>
      cutSyllables r
      if k == .universal then Universal.maskReph
    | .reorder => reorderSyllables r
    | .reorderAgain => finishSyllables r
    | .forgetSubstitutions => Universal.forgetSubstitutions
    | .markReph => Universal.markSubstituted "R"
    | .markPrebase => Universal.markSubstituted "VPre"

/-- Run one stage of the plan. Pauses are made while substituting only. -/
def runStage (k : ShaperKind) (plan : Plan) (stage : Stage) : Shape Unit := do
  say ("Running " ++ stage.name ++ " stage")
  onBook Act.hoistLanguages
  for step in plan do
    match step with
    | .features tags =>
      let routines ← routinesOf tags
      say ("Processing features: " ++ Text.join "," tags)
      for (id, feature) in routines do
        runRoutine stage id feature
    | .pause p => if stage == .sub then runPause k p

/-! ### Invisible characters and attachments -/

/-- Characters that leave no trace in the result. -/
def isIgnorable (c : Nat) : Bool :=
  [0x00AD, 0x034F, 0x061C, 0x17B4, 0x17B5, 0xFEFF].contains c || (0x180B ≤ c && c ≤ 0x180E) ||
    (0x200B ≤ c && c ≤ 0x200F) || (0x202A ≤ c && c ≤ 0x202E) || (0x2060 ≤ c && c ≤ 0x206F) ||
    (0xFE00 ≤ c && c ≤ 0xFE0F) || (0xFFF0 ≤ c && c ≤ 0xFFF8) || (0x1D173 ≤ c && c ≤ 0x1D17A) ||
    (0xE0000 ≤ c && c ≤ 0xE0FFF)

def deleteIgnorables : Shape Unit :=
  onBuffer fun b => { b with items := b.items.filter fun i => !((i.codepoint.map isIgnorable).getD false) }

def needScalar : Option Scalar → Except Fault Scalar
  | some s => .ok s
  | none => .error .wrongKind

def alterPosition (i : Int) (f : ValueRecord → Except Fault ValueRecord) : Shape Unit := do
  let x ← item i
  let p ← ofExcept (do f (← x.position))
  alterItem i fun x => x.setPosition p

/-- Add what another item is moved by; `backward` subtracts its advance, otherwise it is added. -/
def addAdvance (i k : Int) (backward : Bool) : Shape Unit := do
  let other ← item k
  let q ← ofExcept other.position
  let op := if backward then subScalars else addScalars
  alterPosition i fun p => do
    return { p with
      xPlacement := some (← op (← needScalar p.xPlacement) (← needScalar q.xAdvance))
      yPlacement := some (← op (← needScalar p.yPlacement) (orZero q.yAdvance)) }

/-- Move an item with the item that it hangs on, after that has been moved with its own. -/
def followAttachment : Nat → Int → Shape Unit
  | 0, _ => throw .endless
  | fuel + 1, i => do
    let x ← item i
    match x.attachKind, x.attachChain with
    | some kind, some (some chain) =>
      if chain == 0 then return
      alterItem i fun x => { x with attachChain := some none }
      let j := i + chain
      if (← buffer).items.length ≤ j then return
      followAttachment fuel j
      let other ← item j
      let q ← ofExcept other.position
      match kind with
      | .cursive =>
        alterPosition i fun p => do
          return { p with yPlacement := some (← addScalars (orZero p.yPlacement) (orZero q.yPlacement)) }
      | .mark =>
        alterPosition i fun p => do
          return { p with
            xPlacement := some (← addScalars (← needScalar p.xPlacement) (orZero q.xPlacement))
            yPlacement := some (← addScalars (← needScalar p.yPlacement) (orZero q.yPlacement)) }
        if i ≤ j then throw .brokenPromise
        let steps := List.range chain.natAbs
        if (← buffer).direction == some "LTR" then
          for n in steps do
            addAdvance i (j + n) true
        else
          for n in steps do
            addAdvance i (j + 1 + n) false
    | _, _ => return

/-! ### All together -/

/-- Place the glyphs. A font without glyphs has no space to measure by. -/
def placeGlyphs (k : ShaperKind) (plan : Plan) : Shape Unit := do
  runStage k plan .pos
  let _ ← looseGlyph 0x20
  let count := (← buffer).items.length
  for i in List.range count do
    followAttachment (count + 2) i

/-- Shape the buffer. The wishes of the user are read only once the kind of shaping is known. -/
def execute (user : List UserFeature) : Shape Unit := do
  let k ← chooseKind
  say ("Using " ++ k.name)
  let plan := planFor k (← buffer).direction user
  onBook Act.resolveAll
  if !(← buffer).allGlyphs then mapCharacters k
  runStage k plan .sub
  deleteIgnorables
  placeGlyphs k plan

end Shape
end GlyphRules.Shaping
