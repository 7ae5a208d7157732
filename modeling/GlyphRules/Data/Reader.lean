import GlyphRules.Data
import GlyphRules.Number.Reader

/-! Reading plain data from JSON text.

Beside the values of the format, not-a-number and the infinities are read. Of two fields with one
name the last one counts. -/
namespace GlyphRules.Data

abbrev Chars := List Char

def skipGap (cs : Chars) : Chars := cs.dropWhile Text.isSpace

def unit? : Chars → Option (Nat × Chars)
  | a :: b :: c :: d :: rest => do
    let digit (x : Char) : Option Nat := (Number.digitValue? x).filter (· < 16)
    return (((← digit a) * 16 + (← digit b)) * 256 + (← digit c) * 16 + (← digit d), rest)
  | _ => none

/-- What a letter stands for after a backslash. -/
def escape? : Char → Option Char
  | '"' => some '"'
  | '\\' => some '\\'
  | '/' => some '/'
  | 'b' => some '\x08'
  | 'f' => some '\x0c'
  | 'n' => some '\n'
  | 'r' => some '\r'
  | 't' => some '\t'
  | _ => none

def quotedRest : Nat → Chars → Chars → Option (String × Chars)
  | 0, _, _ => none
  | fuel + 1, acc, cs =>
    match cs with
    | [] => none
    | '"' :: rest => some (String.ofList acc.reverse, rest)
    | '\\' :: 'u' :: rest => do
      let (high, rest) ← unit? rest
      let pair : Option (Nat × Chars) := do
        match rest with
        | '\\' :: 'u' :: rest =>
          let (low, rest) ← unit? rest
          if 0xD800 ≤ high && high < 0xDC00 && 0xDC00 ≤ low && low < 0xE000 then
            some (0x10000 + (high - 0xD800) * 1024 + (low - 0xDC00), rest)
          else none
        | _ => none
      let (code, rest) := pair.getD (high, rest)
      quotedRest fuel (Char.ofNat code :: acc) rest
    | '\\' :: c :: rest => do quotedRest fuel ((← escape? c) :: acc) rest
    | c :: rest => if c.toNat < 32 then none else quotedRest fuel (c :: acc) rest

def quoted? (cs : Chars) : Option (String × Chars) := quotedRest (cs.length + 1) [] cs

def fraction : Chars → Chars × Chars
  | '.' :: rest =>
    match rest.takeWhile Char.isDigit with
    | [] => ([], '.' :: rest)
    | ds => (ds, rest.dropWhile Char.isDigit)
  | cs => ([], cs)

def power : Chars → Option Int × Chars
  | e :: rest =>
    if e == 'e' || e == 'E' then
      let (sign, rest') : Int × Chars := match rest with
        | '-' :: r => (-1, r)
        | '+' :: r => (1, r)
        | r => (1, r)
      match rest'.takeWhile Char.isDigit with
      | [] => (none, e :: rest)
      | ds => (some (sign * Text.valueOf 10 ds), rest'.dropWhile Char.isDigit)
    else (none, e :: rest)
  | [] => (none, [])

def number? (cs : Chars) : Option (Data × Chars) := do
  let (negative, cs) := match cs with
    | '-' :: rest => (true, rest)
    | rest => (false, rest)
  let whole := match cs with
    | '0' :: _ => ['0']
    | cs => cs.takeWhile Char.isDigit
  if whole.isEmpty then none
  let (parts, rest) := fraction (cs.drop whole.length)
  let (exponent, rest) := power rest
  if parts.isEmpty && exponent.isNone then
    let n : Int := Text.valueOf 10 whole
    return (int (if negative then -n else n), rest)
  let e := exponent.getD 0 - parts.length
  let x := Float.ofScientific (Text.valueOf 10 (whole ++ parts)) (e < 0) e.natAbs
  return (number (.real (if negative then -x else x)), rest)

def words : List (String × Data) :=
  [("null", null), ("true", bool true), ("false", bool false), ("NaN", number (.real (0.0 / 0.0))),
   ("Infinity", number (.real (1.0 / 0.0))), ("-Infinity", number (.real (-1.0 / 0.0)))]

mutual
def value? : Nat → Chars → Option (Data × Chars)
  | 0, _ => none
  | fuel + 1, cs =>
    match words.findSome? fun (w, d) => (Text.dropStart? w.toList cs).map fun rest => (d, rest) with
    | some found => some found
    | none =>
      match cs with
      | '"' :: rest => do
        let (s, rest) ← quoted? rest
        return (text s, rest)
      | '[' :: rest =>
        match skipGap rest with
        | ']' :: rest => some (list [], rest)
        | rest => items? fuel [] rest
      | '\x7b' :: rest =>
        match skipGap rest with
        | '\x7d' :: rest => some (record [], rest)
        | rest => fields? fuel [] rest
      | cs => number? cs

def items? : Nat → List Data → Chars → Option (Data × Chars)
  | 0, _, _ => none
  | fuel + 1, acc, cs => do
    let (d, rest) ← value? fuel (skipGap cs)
    match skipGap rest with
    | ',' :: rest => items? fuel (acc ++ [d]) rest
    | ']' :: rest => return (list (acc ++ [d]), rest)
    | _ => none

def fields? : Nat → List (String × Data) → Chars → Option (Data × Chars)
  | 0, _, _ => none
  | fuel + 1, acc, cs => do
    match skipGap cs with
    | '"' :: rest =>
      let (key, rest) ← quoted? rest
      match skipGap rest with
      | ':' :: rest =>
        let (d, rest) ← value? fuel (skipGap rest)
        let acc := Dict.set acc key d
        match skipGap rest with
        | ',' :: rest => fields? fuel acc rest
        | '\x7d' :: rest => return (record acc, rest)
        | _ => none
      | _ => none
    | _ => none
end

def parse (source : String) : Except Fault Data :=
  let cs := source.toList
  match value? (2 * cs.length + 2) (skipGap cs) with
  | some (d, rest) => if (skipGap rest).isEmpty then .ok d else .error .unreadableRecord
  | none => .error .unreadableRecord

end GlyphRules.Data
