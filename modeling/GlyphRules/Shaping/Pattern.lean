/-! Patterns of categories.

A row of items is written as a text: for each item its category in pointed brackets, its position in
round ones, and its number after an equals sign. A pattern is matched against the start of such a
text. Alternatives are tried in their order and repetitions take as much as they can; what a match
may leave comes in that order of preference. -/
namespace GlyphRules.Shaping

inductive Pattern where
  /-- An entry with a category. -/
  | one (category : String)
  /-- Any entry. -/
  | any
  /-- A letter that stands for itself. -/
  | letter (c : Char)
  | seq (a b : Pattern)
  | alt (a b : Pattern)
  | opt (a : Pattern)
  | many (a : Pattern)

namespace Pattern

instance : Append Pattern := ⟨seq⟩

def oneOf : String → List String → Pattern
  | c, [] => one c
  | c, d :: ds => alt (one c) (oneOf d ds)

def oneOrMore (a : Pattern) : Pattern := a ++ many a

/-- What stands before a character, and what follows it. -/
def cutAt? (stop : Char) (text : List Char) : Option (List Char × List Char) :=
  let before := text.takeWhile (· != stop)
  match text.drop before.length with
  | _ :: rest => if before.isEmpty then none else some (before, rest)
  | [] => none

/-- What may follow a number; the longest number comes first. -/
def afterNumber : List Char → List (List Char)
  | c :: rest => if c.isDigit then afterNumber rest ++ [rest] else []
  | [] => []

/-- What may follow an entry with a category that fits. -/
def afterEntry (fits : List Char → Bool) (text : List Char) : List (List Char) :=
  match text with
  | '<' :: text =>
    match cutAt? '>' text with
    | some (category, '(' :: text) =>
      match cutAt? ')' text with
      | some (_, '=' :: text) => if fits category then afterNumber text else []
      | _ => []
    | _ => []
  | _ => []

def firsts : List (List Char) → List (List Char)
  | [] => []
  | r :: rs => r :: (firsts rs).filter (· != r)

/-- What a repetition may leave; every round takes something. -/
def afterMany (step : List Char → List (List Char)) : Nat → List Char → List (List Char)
  | 0, s => [s]
  | rounds + 1, s => firsts ((step s).flatMap (fun r => if r == s then [] else afterMany step rounds r) ++ [s])

/-- What a match may leave of a text, the preferred first. -/
def rests : Pattern → List Char → List (List Char)
  | one category, s => afterEntry (· == category.toList) s
  | any, s => afterEntry (fun _ => true) s
  | letter c, s => if c.isAlpha && s.head? == some c then [s.tail] else []
  | seq a b, s => firsts ((a.rests s).flatMap b.rests)
  | alt a b, s => firsts (a.rests s ++ b.rests s)
  | opt a, s => firsts (a.rests s ++ [s])
  | many a, s => afterMany a.rests s.length s

end Pattern

/-- The kinds of syllables, each with its pattern; the first that takes anything is taken. -/
abbrev SyllableKinds := List (String × Pattern)

/-- The kind of the syllable at the start of a text, and what it leaves. -/
def firstSyllable? (kinds : SyllableKinds) (text : List Char) : Option (String × List Char) :=
  kinds.findSome? fun kind =>
    match (kind.2.rests text).head? with
    | some rest => if rest.length < text.length then some (kind.1, rest) else none
    | none => none

/-- The numbers that follow equals signs. -/
def numbersIn : List Char → List Nat
  | [] => []
  | c :: rest =>
    let digits := rest.takeWhile Char.isDigit
    if c == '=' && !digits.isEmpty then Nat.ofDigitChars 10 digits 0 :: numbersIn rest else numbersIn rest

end GlyphRules.Shaping
