import GlyphRules.Number.Reader

/-! The words of a feature file.

A `Cursor` is what is left of a file and where that stands. `Cursor.next` skips blanks, line ends
and comments and reads the longest token that can start there. -/
namespace GlyphRules.Feature

structure Spot where
  line : Nat := 1
  column : Nat := 1
deriving DecidableEq

def Spot.text (s : Spot) : String :=
  "<features>:" ++ toString s.line ++ ":" ++ toString s.column

inductive Token where
  | name (s : String)
  /-- A glyph by its number. -/
  | cid (n : Nat)
  /-- The name of a glyph class, without its sign. -/
  | glyphClass (s : String)
  | number (n : Int)
  /-- A number in base eight or sixteen. -/
  | code (n : Nat)
  /-- A number with a decimal point, as written. -/
  | decimal (s : String)
  | quoted (s : String)
  | symbol (c : Char)
deriving DecidableEq

def Token.word : Token → Option String
  | .name s | .glyphClass s | .quoted s => some s
  | .symbol c => some (String.singleton c)
  | _ => none

/-- What is left of a file, and where it starts. -/
structure Cursor where
  rest : List Char
  spot : Spot := {}

namespace Cursor

def isNameStart (c : Char) : Bool := c.isAlpha || "_+*:.^~!\\".toList.contains c

def isNamePart (c : Char) : Bool := c.isAlphanum || "_.+*:^~!/-".toList.contains c

def isClassPart (c : Char) : Bool := c.isAlphanum || "_.-".toList.contains c

def isSymbol (c : Char) : Bool := ",;:-+'\x7b\x7d[]<>()=".toList.contains c

def past (c : Cursor) (n : Nat) : Cursor :=
  ⟨c.rest.drop n, { c.spot with column := c.spot.column + n }⟩

/-- Skip blanks and line ends, and comments up to the end of their line. -/
def skipGaps : Bool → List Char → Nat → Nat → Cursor
  | _, [], line, column => ⟨[], ⟨line, column⟩⟩
  | _, '\n' :: cs, line, _ => skipGaps false cs (line + 1) 1
  | _, '\r' :: '\n' :: cs, line, _ => skipGaps false cs (line + 1) 1
  | _, '\r' :: cs, line, _ => skipGaps false cs (line + 1) 1
  | true, _ :: cs, line, column => skipGaps true cs line (column + 1)
  | false, c :: cs, line, column =>
    if c == ' ' || c == '\t' then skipGaps false cs line (column + 1)
    else if c == '#' then skipGaps true cs line (column + 1)
    else ⟨c :: cs, ⟨line, column⟩⟩

def skip (c : Cursor) : Cursor := skipGaps false c.rest c.spot.line c.spot.column

def digitsValue (base : Nat) (ds : List Char) : Except Fault Nat :=
  (Number.readDigits base ds false none).elim (.error .badValue) .ok

/-- A number that starts with `lead` characters of sign: whole, or with a point. -/
def readNumber (c : Cursor) (lead : Nat) : Except Fault (Token × Cursor) := do
  let digits := (c.rest.drop lead).takeWhile Char.isDigit
  let after := c.rest.drop (lead + digits.length)
  if after.head? == some '.' then
    let points := after.takeWhile (· == '.')
    let places := (after.drop points.length).takeWhile Char.isDigit
    if points.length != 1 then throw .badValue
    let size := lead + digits.length + points.length + places.length
    return (.decimal (String.ofList (c.rest.take size)), c.past size)
  else
    let n ← digitsValue 10 digits
    return (.number (if lead == 0 then n else -(n : Int)), c.past (lead + digits.length))

/-- A text in quotes; line ends inside it are dropped. -/
def readQuoted (c : Cursor) : Except Fault (Token × Cursor) :=
  let body := (c.rest.drop 1).takeWhile (· != '"')
  if (c.rest.drop (body.length + 1)).isEmpty then .error .unreadableFeatures
  else .ok (.quoted (String.ofList (body.filter fun ch => ch != '\n' && ch != '\r')), c.past (body.length + 2))

def read (c : Cursor) : Except Fault (Token × Cursor) := do
  match c.rest with
  | [] => throw .unreadableFeatures
  | ch :: more =>
    let ahead (f : Char → Bool) : Except Fault Bool :=
      match more.head? with
      | some d => .ok (f d)
      | none => .error .wrongKind
    let isNumbered ← if ch == '\\' then ahead Char.isDigit else pure false
    if isNumbered then
      let digits := more.takeWhile Char.isDigit
      return (.cid (← digitsValue 10 digits), c.past (digits.length + 1))
    if ch == '@' then
      let name := more.takeWhile isNamePart
      if name.isEmpty || !name.all isClassPart then throw .unreadableFeatures
      return (.glyphClass (String.ofList name), c.past (name.length + 1))
    if isNameStart ch then
      let name := ch :: more.takeWhile isNamePart
      return (.name (String.ofList name), c.past name.length)
    if ch == '0' then
      if ← ahead fun d => d == 'x' || d == 'X' then
        let digits := (more.drop 1).takeWhile Text.isHex
        return (.code (← digitsValue 16 digits), c.past (digits.length + 2))
      if ← ahead Char.isDigit then
        let digits := more.takeWhile Char.isDigit
        return (.code (← digitsValue 8 digits), c.past (digits.length + 1))
    if ch.isDigit then
      readNumber c 0
    else
      let isNegative ← if ch == '-' then ahead Char.isDigit else pure false
      if isNegative then readNumber c 1
      else if isSymbol ch then return (.symbol ch, c.past 1)
      else if ch == '"' then readQuoted c
      else throw .unreadableFeatures

/-- Whether a file is asked for at the cursor; the name of the file stands in round brackets. -/
def readInclude (c : Cursor) : Except Fault Unit :=
  match c.rest.dropWhile Text.isSpace with
  | [] => .ok ()
  | '(' :: cs => if cs.contains ')' then .error .noIncludedFile else .error .unreadableFeatures
  | _ => .error .unreadableFeatures

/-- The next token and where it stands, or nothing at the end. A file that is to be
included is never found. -/
def next (c : Cursor) : Except Fault (Option (Token × Spot) × Cursor) := do
  let c := c.skip
  if c.rest.isEmpty then return (none, c)
  let (t, after) ← c.read
  if t == .name "include" then
    readInclude after
    return (none, ⟨[], after.spot⟩)
  return (some (t, c.spot), after)

end Cursor
end GlyphRules.Feature
