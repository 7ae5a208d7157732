import GlyphRules.Text.Basic

/-! Regular expressions.

A `Regex` is run on a text with a place in it. `Regex.run` gives every way to match from there, in
order of preference: the first alternative first, greedy repetitions longest first. A repetition
that reads nothing is not tried again, so there are finitely many ways. -/
namespace GlyphRules.Text

/-- What stands in a class of characters. -/
inductive ClassMember where
  | range (low high : Char)
  | digit (negated : Bool)
  | blank (negated : Bool)
  | word (negated : Bool)
deriving DecidableEq

inductive Regex where
  | empty
  /-- Any character but a line end. -/
  | any
  /-- A character of the class, or none of it; capitals and small letters may count as the same. -/
  | oneOf (negated fold : Bool) (members : List ClassMember)
  /-- Where the text starts. -/
  | start
  /-- Where the text ends, or before a line end that ends it. -/
  | finish
  /-- Where the text ends and nothing follows. -/
  | textEnd
  /-- Where a word starts or ends, or where neither is so. -/
  | edge (negated : Bool)
  /-- A part that may be kept under a number. -/
  | group (number : Option Nat) (body : Regex)
  /-- What was kept under a number, once more. -/
  | again (number : Nat)
  /-- What follows must match, or must not. -/
  | ahead (negated : Bool) (body : Regex)
  /-- What precedes, so many characters long, must match, or must not. -/
  | behind (negated : Bool) (width : Nat) (body : Regex)
  | seq (first second : Regex)
  | alt (first second : Regex)
  | times (least : Nat) (most : Option Nat) (greedy : Bool) (body : Regex)

namespace Regex

/-- A place in a text: what precedes, last character first, what follows, and the parts kept. -/
structure Place where
  before : List Char := []
  rest : List Char
  kept : List (Nat × List Char) := []

/-- Letters and digits; beyond ASCII everything but blanks, signs and punctuation counts. -/
def isWordChar (c : Char) : Bool :=
  c.isAlphanum || c == '_' ||
    (c.toNat ≥ 0xC0 && c.toNat != 0xD7 && c.toNat != 0xF7 && !(0x2000 ≤ c.toNat && c.toNat ≤ 0x206F) &&
      !(0x3000 ≤ c.toNat && c.toNat ≤ 0x3004) && !isBlank c) ||
    c.toNat == 0xAA || c.toNat == 0xB5 || c.toNat == 0xBA

namespace ClassMember

def has (c : Char) : ClassMember → Bool
  | .range low high => low ≤ c && c ≤ high
  | .digit negated => c.isDigit != negated
  | .blank negated => isBlank c != negated
  | .word negated => isWordChar c != negated

end ClassMember

def inClass (negated fold : Bool) (members : List ClassMember) (c : Char) : Bool :=
  let found := members.any (ClassMember.has c) ||
    (fold && (members.any (ClassMember.has c.toLower) || members.any (ClassMember.has c.toUpper)))
  found != negated

def atEdge (p : Place) : Bool :=
  let sideways (l : List Char) : Bool := (l.head?.map isWordChar).getD false
  sideways p.before != sideways p.rest

def step (p : Place) (f : Char → Bool) : List Place :=
  match p.rest with
  | c :: cs => if f c then [{ p with before := c :: p.before, rest := cs }] else []
  | [] => []

def readText (p : Place) : List Char → List Place
  | [] => [p]
  | t :: ts =>
    match p.rest with
    | c :: cs => if c == t then readText { p with before := c :: p.before, rest := cs } ts else []
    | [] => []

/-- Repeat a step: at least `least` times, and as often as `most` allows. -/
def repeated (f : Place → List Place) (greedy : Bool) : Nat → Nat → Option Nat → Place → List Place
  | 0, _, _, p => [p]
  | fuel + 1, least, most, p =>
    if most == some 0 then [p]
    else
      let more := (f p).flatMap fun q =>
        if least == 0 && q.rest.length == p.rest.length then []
        else repeated f greedy fuel (least - 1) (most.map (· - 1)) q
      if least > 0 then more
      else if greedy then more ++ [p]
      else p :: more

def readSince (p q : Place) : List Char := p.rest.take (p.rest.length - q.rest.length)

def run : Regex → Place → List Place
  | empty, p => [p]
  | any, p => step p (· != '\n')
  | oneOf negated fold members, p => step p (inClass negated fold members)
  | start, p => if p.before.isEmpty then [p] else []
  | finish, p => if p.rest.isEmpty || p.rest == ['\n'] then [p] else []
  | textEnd, p => if p.rest.isEmpty then [p] else []
  | edge negated, p => if atEdge p != negated then [p] else []
  | group none body, p => body.run p
  | group (some n) body, p =>
    (body.run p).map fun q => { q with kept := (n, readSince p q) :: q.kept.filter (·.1 != n) }
  | again n, p =>
    match p.kept.find? (·.1 == n) with
    | some (_, text) => readText p text
    | none => []
  | ahead negated body, p =>
    match body.run p with
    | q :: _ => if negated then [] else [{ p with kept := q.kept }]
    | [] => if negated then [p] else []
  | behind negated width body, p =>
    let found := if p.before.length < width then none else
      (body.run { p with before := p.before.drop width, rest := (p.before.take width).reverse }).find?
        (·.rest.isEmpty)
    match found with
    | some q => if negated then [] else [{ p with kept := q.kept }]
    | none => if negated then [p] else []
  | seq a b, p => (a.run p).flatMap b.run
  | alt a b, p => a.run p ++ b.run p
  | times least most greedy body, p =>
    repeated body.run greedy (p.rest.length + least + 1) least most p

/-- The first match that starts at a place; the start of the text has nothing before it. -/
def matchAt? (r : Regex) (p : Place) : Option Place := (r.run p).head?

def matchStart? (r : Regex) (text : List Char) : Option Place := r.matchAt? { rest := text }

def occursFrom (r : Regex) : List Char → List Char → Bool
  | before, [] => (r.matchAt? { before, rest := [] }).isSome
  | before, c :: cs => (r.matchAt? { before, rest := c :: cs }).isSome || occursFrom r (c :: before) cs

def search (r : Regex) (text : String) : Bool := r.occursFrom [] text.toList

/-- Put `new` in place of every match. After an empty match the next one may start at the same
place only if it reads something. -/
def replaceFrom (r : Regex) (new : List Char) : Nat → Bool → List Char → List Char → List Char
  | 0, _, _, rest => rest
  | fuel + 1, mustAdvance, before, rest =>
    let ways := r.run { before, rest }
    let found := if mustAdvance then ways.find? (·.rest.length != rest.length) else ways.head?
    match found with
    | some q => new ++ replaceFrom r new fuel (q.rest.length == rest.length) q.before q.rest
    | none =>
      match rest with
      | c :: cs => c :: replaceFrom r new fuel false (c :: before) cs
      | [] => []

def replaceAll (r : Regex) (new text : String) : String :=
  String.ofList (r.replaceFrom new.toList (2 * text.length + 2) false [] text.toList)

end Regex
end GlyphRules.Text
