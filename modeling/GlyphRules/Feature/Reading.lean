import GlyphRules.Feature.Entry
import GlyphRules.Book.Basic

/-! The state of reading a feature file.

The reader looks one token ahead. Its state holds what has been defined: glyph classes, mark classes
and lookups to the end of the file, anchors and value records to the end of their block. Every loop
is granted more steps than there are characters left, and every step reads a token. -/
namespace GlyphRules.Feature

/-- The members of a glyph class; a class that is only another name for one has no list of
its own. -/
structure ClassEntry where
  glyphs : GlyphSet
  listed : Bool := true

structure Reading where
  source : Cursor
  current : Option Token := none
  spot : Spot := {}
  ahead : Option Token := none
  aheadSpot : Spot := {}
  /-- The glyphs of the font; without any, every name is a glyph. -/
  known : List String := []
  /-- Whether a glyph was named that the font lacks. -/
  missing : Bool := false
  classes : List (String × ClassEntry) := []
  marks : List (String × MarkClass) := []
  lookups : List String := []
  anchors : List (String × AnchorPoint) := []
  values : List (String × ValueRecord) := []

abbrev Read := StateT Reading (Except Fault)

namespace Read

def refuse {α : Type} : Read α := throw .unreadableFeatures

/-! ### Tokens -/

/-- Take the token ahead, and look at the one after it. -/
def advance : Read Unit := do
  let s ← get
  let (t, source) ← s.source.next
  let s := { s with current := s.ahead, spot := s.aheadSpot, source }
  set (match t with
    | some (t, spot) => { s with ahead := some t, aheadSpot := spot }
    | none => { s with ahead := none })

def aheadIs (word : String) : Read Bool := do
  return (← get).ahead.bind Token.word == some word

def currentIs (word : String) : Read Bool := do
  return (← get).current.bind Token.word == some word

def expectSymbol (c : Char) : Read Unit := do
  advance
  if (← get).current != some (.symbol c) then refuse

def expectKeyword (word : String) : Read Unit := do
  advance
  if (← get).current != some (.name word) then refuse

/-- Take a word if it comes next. -/
def accept (word : String) : Read Bool := do
  let found ← aheadIs word
  if found then expectKeyword word
  return found

/-- Take a token of some kind. -/
def expect {α : Type} (pick : Token → Option α) : Read α := do
  advance
  match (← get).current.bind pick with
  | some a => return a
  | none => refuse

def expectName : Read String := expect fun | .name n => some n | _ => none

def expectNumber : Read Int := expect fun | .number n => some n | _ => none

def expectAnyNumber : Read Int := expect fun | .number n => some n | .code n => some n | _ => none

def expectDecimal : Read String := expect fun | .decimal s => some s | _ => none

/-- A decimal as written, in units of its last place, and the number of its places. -/
def decimalUnits (s : String) : Int × Nat :=
  let cs := s.toList
  let units := Text.valueOf 10 (cs.filter Char.isDigit)
  (if cs.head? == some '-' then -(units : Int) else units, (cs.dropWhile (· != '.')).length - 1)

/-- A number with or without a point, in units of its last place, and the number of its places. -/
def expectMeasure : Read (Int × Nat) :=
  expect fun | .decimal s => some (decimalUnits s) | .number n => some (n, 0) | _ => none

def expectQuoted : Read String := expect fun | .quoted s => some s | _ => none

def expectClassName : Read String := expect fun | .glyphClass n => some n | _ => none

/-- A tag has up to four characters and is filled up with blanks. -/
def expectTag : Read String := do
  let n ← expectName
  if n.length > 4 then refuse
  return Text.padRight ' ' 4 n

def expectScript : Read String := do
  let t ← expectTag
  if t == "dflt" then refuse
  return t

def expectLanguage : Read String := do
  let t ← expectTag
  if t == "DFLT" then refuse
  return t

def numbered (n : Nat) : String := "cid" ++ Text.padLeft '0' 5 (toString n)

def expectGlyph : Read String := do
  advance
  match (← get).current with
  | some (.name n) =>
    let n := String.ofList (n.toList.dropWhile (· == '\\'))
    if n.length > 63 then refuse
    return n
  | some (.cid n) => return numbered n
  | _ => refuse

def untilDone {α : Type} (stop : Reading → Bool) (step : Read α) : Nat → Read (List α)
  | 0 => throw .unfinished
  | n + 1 => do
    if stop (← get) then return []
    let a ← step
    return a :: (← untilDone stop step n)

/-- More steps than there are tokens left. -/
def enough : Read Nat := do return (← get).source.rest.length + 3

def stopsAt (words : List String) (s : Reading) : Bool :=
  match s.ahead.bind Token.word with
  | some w => words.contains w
  | none => false

def upTo {α : Type} (words : List String) (step : Read α) : Read (List α) := do
  untilDone (stopsAt words) step (← enough)

def whileAhead {α : Type} (word : String) (step : Read α) : Read (List α) := do
  untilDone (fun s => !stopsAt [word] s) step (← enough)

/-- Statements in curly brackets. Each step starts after the first word of a statement has
been taken; lone semicolons are skipped. -/
def braced {α : Type} (step : Read α) : Read (List α) := do
  expectSymbol '\x7b'
  let found ← upTo ["\x7d"] do
    advance
    if ← currentIs ";" then return none
    some <$> step
  expectSymbol '\x7d'
  return found.filterMap id

def isCurrent (name : String) : Read Bool := do return (← get).current == some (.name name)

/-! ### Glyphs -/

def noteGlyphs (names : List String) : Read Unit := do
  let s ← get
  if !s.known.isEmpty && names.any (fun n => !s.known.contains n) then
    set { s with missing := true }

def commonStart : List Char → List Char → List Char
  | a :: as, b :: bs => if a == b then a :: commonStart as bs else []
  | _, _ => []

/-- The names from `start` to `limit`: they differ in one letter, or in up to three digits. -/
def glyphRange (start limit : String) : Except Fault (List String) := do
  let s := start.toList
  let l := limit.toList
  if s.length != l.length then throw .unreadableFeatures
  let head := commonStart s l
  let tail := (commonStart s.reverse l.reverse).reverse
  let middle (cs : List Char) := (cs.drop head.length).take (cs.length - head.length - tail.length)
  let a := middle s
  let b := middle l
  if !(String.ofList a < String.ofList b) then throw .unreadableFeatures
  let full (cs : List Char) := String.ofList (head ++ cs ++ tail)
  match a, b with
  | [x], [y] =>
    if (x.isUpper && y.isUpper) || (x.isLower && y.isLower) then
      return (List.range (y.toNat + 1 - x.toNat)).map fun i => full [Char.ofNat (x.toNat + i)]
  | _, _ => pure ()
  if a.all Char.isDigit && b.all Char.isDigit && !a.isEmpty && a.length ≤ 3 then
    let first := Text.valueOf 10 a
    return (List.range (Text.valueOf 10 b + 1 - first)).map fun i =>
      full (Text.padLeft '0' a.length (toString (first + i))).toList
  throw .unreadableFeatures

def cuts : List Char → List Char → List (String × String)
  | _, [] => []
  | before, '-' :: cs => (String.ofList before, String.ofList cs) :: cuts (before ++ ['-']) cs
  | before, c :: cs => cuts (before ++ [c]) cs

def splitRange (known : List String) (name : String) : Except Fault (String × String) :=
  let ways := (("", name) :: cuts [] name.toList).filter fun (a, b) => known.contains a && known.contains b
  match ways with
  | [way] => .ok way
  | _ => .error .unreadableFeatures

def resolveClass (name : String) : Read GlyphSet := do
  let s ← get
  match Dict.get? s.classes name with
  | some c => return c.glyphs
  | none => refuse

def membersOf (g : GlyphSet) : Read (List String) := do return g.members (← get).marks

def classMember : Read (List String) := do
  match (← get).ahead with
  | some (.name _) =>
    let glyph ← expectGlyph
    let known := (← get).known
    if glyph.toList.contains '-' && !known.isEmpty && !known.contains glyph then
      let (start, limit) ← splitRange known glyph
      glyphRange start limit
    else if ← aheadIs "-" then
      expectSymbol '-'
      let limit ← expectGlyph
      noteGlyphs [glyph, limit]
      glyphRange glyph limit
    else
      noteGlyphs [glyph]
      return [glyph]
  | some (.cid start) =>
    advance
    if ← aheadIs "-" then
      expectSymbol '-'
      advance
      match (← get).current with
      | some (.cid limit) =>
        noteGlyphs [numbered start, numbered limit]
        if start > limit then refuse
        return (List.range (limit + 1 - start)).map fun i => numbered (start + i)
      | _ => refuse
    else
      noteGlyphs [numbered start]
      return [numbered start]
  | some (.glyphClass name) =>
    advance
    membersOf (← resolveClass name)
  | _ => refuse

def glyphClass : Read GlyphSet := do
  match (← get).ahead with
  | some (.glyphClass name) =>
    advance
    resolveClass name
  | _ =>
    expectSymbol '['
    let members ← upTo ["]"] classMember
    expectSymbol ']'
    return .glyphs members.flatten

def glyphOrClass : Read GlyphSet := do
  match (← get).ahead with
  | some (.name _) | some (.cid _) =>
    let glyph ← expectGlyph
    noteGlyphs [glyph]
    return .glyph glyph
  | _ => glyphClass

def replacement : Read GlyphSet := do
  if (← get).ahead == some (.name "NULL") then
    advance
    return .nothing
  glyphOrClass

/-! ### Values and anchors -/

def device : Read (List Int) := do
  expectSymbol '<'
  expectKeyword "device"
  let delta : Read Int := do
    let _ ← expectNumber
    expectNumber
  if ← accept "NULL" then
    expectSymbol '>'
    return []
  let first ← delta
  let more ← whileAhead "," (do expectSymbol ','; delta)
  expectSymbol '>'
  return first :: more

/-- Four devices may follow the parts of a value; a delta has eight bits. -/
def devices : Read Unit := do
  let a ← device
  let b ← device
  let c ← device
  let d ← device
  let all := a ++ b ++ c ++ d
  if all.isEmpty then throw .outOfRange
  if all.any fun n => n < -128 || n > 127 then refuse

def valueRecord (vertical : Bool) : Read ValueRecord := do
  match (← get).ahead with
  | some (.number _) =>
    let n := Scalar.int (← expectNumber)
    return if vertical then { yAdvance := some n, vertical } else { xAdvance := some n, vertical }
  | _ =>
    expectSymbol '<'
    let value ← match (← get).ahead with
      | some (.name n) => do
        advance
        if n == "NULL" then
          expectSymbol '>'
          return {}
        match (← get).values.find? (·.1 == n) with
        | some (_, v) => pure { v with vertical }
        | none => refuse
      | _ => do
        let xPlacement := some (Scalar.int (← expectNumber))
        let yPlacement := some (Scalar.int (← expectNumber))
        let xAdvance := some (Scalar.int (← expectNumber))
        let yAdvance := some (Scalar.int (← expectNumber))
        pure { xPlacement, yPlacement, xAdvance, yAdvance, vertical }
    if ← aheadIs "<" then devices
    expectSymbol '>'
    return value

/-- A point on the outline may be named after the coordinates. -/
def contourPoint : Read Unit := do
  if ← accept "contourpoint" then
    let _ ← expectNumber

def anchor : Read (Option AnchorPoint) := do
  expectSymbol '<'
  expectKeyword "anchor"
  if ← accept "NULL" then
    expectSymbol '>'
    return none
  match (← get).ahead with
  | some (.name n) =>
    advance
    match (← get).anchors.find? (·.1 == n) with
    | some (_, a) =>
      expectSymbol '>'
      return some a
    | none => refuse
  | _ =>
    let x ← expectNumber
    let y ← expectNumber
    contourPoint
    if ← aheadIs "<" then
      let _ ← device
      let _ ← device
    expectSymbol '>'
    return some ⟨x, y⟩

def anchorMarks : Read (List (Option AnchorPoint × String)) := do
  let found ← whileAhead "<" do
    let a ← anchor
    if a.isNone && !(← aheadIs "mark") then return none
    expectKeyword "mark"
    let name ← expectClassName
    match Dict.get? (← get).classes name with
    | some ⟨.marks c, true⟩ => return some (a, c)
    | _ => refuse
  return found.filterMap id

/-! ### Definitions -/

def classDefinition (name : String) : Read Unit := do
  expectSymbol '='
  let listed := match (← get).ahead with
    | some (.glyphClass _) => false
    | _ => true
  let glyphs ← glyphClass
  expectSymbol ';'
  modify fun s => { s with classes := Dict.set s.classes name { glyphs, listed } }

def anchorDefinition : Read Unit := do
  let x ← expectNumber
  let y ← expectNumber
  contourPoint
  let name ← expectName
  expectSymbol ';'
  modify fun s => { s with anchors := (name, ⟨x, y⟩) :: s.anchors }

def valueDefinition (vertical : Bool) : Read Unit := do
  let value ← valueRecord vertical
  let name ← expectName
  expectSymbol ';'
  modify fun s => { s with values := (name, value) :: s.values }

/-- Whether a name occurs twice. -/
def hasRepeats : List String → Bool
  | [] => false
  | a :: as => as.contains a || hasRepeats as

def markDefinition : Read Unit := do
  let glyphs ← membersOf (← glyphOrClass)
  if glyphs.isEmpty then refuse
  let a ← anchor
  let name ← expectClassName
  expectSymbol ';'
  let s ← get
  let marks := (Dict.get? s.marks name).getD {}
  let classes := if Dict.has s.marks name then s.classes else Dict.set s.classes name { glyphs := .marks name }
  match a with
  | none => throw .brokenPromise
  | some a =>
    if hasRepeats (marks.glyphs ++ glyphs) then refuse
    set { s with classes, marks := Dict.set s.marks name { marks with definitions := marks.definitions ++ [(a, glyphs)] } }

end Read
end GlyphRules.Feature
