import GlyphRules.Command.Selector
import GlyphRules.Command.Relation
import GlyphRules.Number.Reader

/-! Phrases: the arguments of a command.

A phrase gives all its readings from a place on, the preferred one first; blanks may stand between
its parts. A part can be well written and have no value, as a variable that was never set. The first
such trouble is kept with the reading and told once the whole text has been read. -/
namespace GlyphRules.Command

/-- What is left to read, the column where it starts, and the first trouble so far. -/
structure Rest where
  chars : List Char
  column : Nat := 1
  trouble : Option Fault := none

def Phrase (α : Type) := Rest → List (α × Rest)

abbrev Variables := List (String × String)

namespace Phrase

variable {α β : Type}

instance : Monad Phrase where
  pure a := fun r => [(a, r)]
  bind p f := fun r => (p r).flatMap fun (a, r) => f a r

/-- The readings of the first phrase, then those of the second. -/
def either (p q : Phrase α) : Phrase α := fun r => p r ++ q r

def anyOf (ps : List (Phrase α)) : Phrase α := fun r => ps.flatMap (· r)

def nothing : Phrase α := fun _ => []

def trouble (f : Fault) : Phrase Unit := fun r => [((), { r with trouble := r.trouble.or (some f) })]

def settle (value : Except Fault α) (otherwise : α) : Phrase α :=
  match value with
  | .ok a => pure a
  | .error f => do trouble f; pure otherwise

def skipBlanks (r : Rest) : Rest :=
  let gap := (r.chars.takeWhile (· == ' ')).length
  { r with chars := r.chars.drop gap, column := r.column + gap }

def here : Phrase Nat := fun r => [((skipBlanks r).column, r)]

def part (length : List Char → Option Nat) : Phrase (List Char) := fun r =>
  let r := skipBlanks r
  match length r.chars with
  | some n =>
    if n == 0 then [] else [(r.chars.take n, { r with chars := r.chars.drop n, column := r.column + n })]
  | none => []

def sign (text : String) : Phrase Unit := do
  let _ ← part fun cs => if text.toList.isPrefixOf cs then some text.length else none

def option (p : Phrase α) : Phrase (Option α) := either (some <$> p) (pure none)

def manyWithin (p : Phrase α) : Nat → Phrase (List α)
  | 0 => pure []
  | n + 1 => either (do let a ← p; let l ← manyWithin p n; pure (a :: l)) (pure [])

def many (p : Phrase α) : Phrase (List α) := fun r => manyWithin p (r.chars.length + 1) r

def several (p : Phrase α) : Phrase (List α) := do
  let a ← p
  let l ← many p
  pure (a :: l)

def finish : Phrase Unit := fun r => if (skipBlanks r).chars.isEmpty then [((), r)] else []

def read (p : Phrase α) (text : String) : Except Fault α :=
  match (do let a ← p; finish; pure a : Phrase α) { chars := text.toList } with
  | (a, r) :: _ =>
    match r.trouble with
    | some f => .error f
    | none => .ok a
  | [] => .error .ungrammatical

/-! ### Words -/

def runLength (first more : Char → Bool) : List Char → Option Nat
  | c :: cs => if first c then some (1 + (cs.takeWhile more).length) else none
  | [] => none

def isNameStart (c : Char) : Bool := c.isAlphanum || c == '_'

def isNamePart (c : Char) : Bool := isNameStart c || c == '.' || c == '-'

/-- A plain name: letters, digits and low lines, then also points and hyphens. -/
def name : Phrase String := String.ofList <$> part (runLength isNameStart isNamePart)

/-- Letters, digits and low lines. -/
def label : Phrase String := String.ofList <$> part (runLength isNameStart isNameStart)

def className : Phrase String := do
  let cs ← part fun
    | '@' :: cs => (runLength isNameStart isNameStart cs).map (· + 1)
    | _ => none
  pure (String.ofList (cs.drop 1))

def word (words : List (String × α)) : Phrase α :=
  anyOf (words.map fun (w, a) => do sign w; pure a)

/-- A tag of exactly four: a letter, then letters and digits. -/
def tag : Phrase String := do
  let cs ← part fun
    | a :: b :: c :: d :: _ => if a.isAlpha && [b, c, d].all Char.isAlphanum then some 4 else none
    | _ => none
  pure (String.ofList cs)

/-- The length of a text in double quotes: up to the first quote that is not escaped. -/
def quotedLength : List Char → Bool → Option Nat
  | [], _ => none
  | c :: cs, escaped =>
    if escaped then (quotedLength cs false).map (· + 1)
    else if c == '"' then some 1
    else (quotedLength cs (c == '\\')).map (· + 1)

def quoted : Phrase String := do
  let cs ← part fun
    | '"' :: cs => (quotedLength cs false).map (· + 1)
    | _ => none
  pure (String.ofList ((cs.drop 1).dropLast))

/-! ### Numbers -/

def digitsLength (cs : List Char) : Nat := (cs.takeWhile Char.isDigit).length

def exponentLength : List Char → Nat
  | e :: cs =>
    if e == 'e' || e == 'E' then
      let signed := match cs with
        | '+' :: _ | '-' :: _ => 1
        | _ => 0
      match digitsLength (cs.drop signed) with
      | 0 => 0
      | n => 1 + signed + n
    else 0
  | [] => 0

/-- The length of a number without sign: digits, perhaps a point and an exponent. -/
def unsignedLength (cs : List Char) : Option Nat :=
  let whole := digitsLength cs
  match cs.drop whole with
  | '.' :: rest =>
    let places := digitsLength rest
    if whole + places == 0 then none
    else some (whole + 1 + places + exponentLength (rest.drop places))
  | rest => if whole == 0 then none else some (whole + exponentLength rest)

def signedLength : List Char → Option Nat
  | c :: cs => if c == '+' || c == '-' then (unsignedLength cs).map (· + 1) else unsignedLength (c :: cs)
  | [] => none

def numberText : Phrase String := String.ofList <$> part signedLength

def unsignedText : Phrase String := String.ofList <$> part unsignedLength

def number : Phrase (Except Fault Int) := Number.read <$> numberText

def metric : Phrase Metric := word Metric.named

def glyphMeasure : Phrase Unit := do
  let _ ← part fun cs =>
    Metric.named.findSome? fun (m, _) =>
      let start := m.toList ++ ['[']
      if start.isPrefixOf cs then
        let rest := cs.drop start.length
        (runLength isNameStart isNamePart rest).bind fun n =>
          if (rest.drop n).head? == some ']' then some (start.length + n + 1) else none
      else none

/-- A variable, a measure or a number. Measures have no value here, variables only once they are
set. -/
def amount (vars : Variables) : Phrase (Except Fault Int) :=
  anyOf [
    do
      let cs ← part fun
        | '$' :: cs => (runLength isNameStart isNamePart cs).map (· + 1)
        | _ => none
      match vars.find? (·.1 == String.ofList (cs.drop 1)) with
      | some (_, text) => pure (Number.read text)
      | none => pure (.error .wrongKind),
    do glyphMeasure; pure (.error .badValue),
    number]

def value (vars : Variables) : Phrase Int := do settle (← amount vars) 0

def relation : Phrase Relation := word Relation.signs

/-! ### Selectors -/

def character : Phrase Nat := do
  let cs ← part fun
    | 'U' :: '+' :: cs =>
      match ((cs.take 6).takeWhile Text.isHex).length with
      | 0 => none
      | n => some (n + 2)
    | _ => none
  pure ((Number.readDigits 16 (cs.drop 2) false none).getD 0)

/-- A pattern between slashes; it ends with the last slash before a blank. -/
def pattern : Phrase String := do
  let cs ← part fun
    | '/' :: cs =>
      match ((cs.takeWhile fun c => !Text.isBlank c).reverse.dropWhile (· != '/')).length with
      | 0 => none
      | n => some (n + 1)
    | _ => none
  pure (String.ofList ((cs.drop 1).dropLast))

def bracketed : Phrase (List Selector) := do
  sign "["
  let l ← many (either (.named <$> className) (.name <$> name))
  sign "]"
  pure l

def suffix : Phrase Suffix :=
  either (do sign "."; .added <$> name) (do sign "~"; .removed <$> name)

def selector : Phrase (Selector × Whereabouts) := do
  let column ← here
  let s : Selector ← anyOf [
    do
      let first ← character
      sign "=>"
      let last ← character
      pure (.range first (last + 1)),
    .character <$> character,
    .pattern <$> pattern,
    .name <$> name,
    .named <$> className,
    .group <$> bracketed]
  match s with
  | .group _ => pure (s, .inside)
  | _ => pure (s, .at 1 column)

def selection : Phrase Selection := do
  let (s, place) ← selector
  pure { selector := s, suffixes := ← many suffix, place }

/-- A range of characters cannot be used in a command. -/
def usable (s : Selection) : Except Fault Selection :=
  match s.selector with
  | .range _ _ => .error .missingPart
  | _ => .ok s

def glyphs : Phrase Selection := do
  let s ← selection
  settle (usable s) s

/-! ### Languages -/

/-- Three or four letters, or a star. -/
def systemTag : Phrase String := do
  let cs ← part fun
    | '*' :: _ => some 1
    | cs =>
      let n := ((cs.take 4).takeWhile Char.isAlpha).length
      if n < 3 then none else some n
  pure (String.ofList cs)

def languages : Phrase (List LanguageSystem) := do
  sign "<<"
  let l ← several do
    let a ← systemTag
    sign "/"
    let b ← systemTag
    pure (a, b)
  sign ">>"
  pure l

end Phrase
end GlyphRules.Command
