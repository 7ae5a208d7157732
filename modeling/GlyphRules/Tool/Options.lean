import GlyphRules.Number.Reader

/-! Command lines.

A command line holds operands and switches, in any order. Long switches may be shortened as long as
only one is meant, and take a value after `=` or as the next argument; several short ones may be
written together, the last perhaps followed by its value. After `--` everything is an operand.
Operands are given out run by run between the switches: one that may be left out is left out as soon
as the run before it ends. -/
namespace GlyphRules.Tool

/-- What a switch wants to be followed by. -/
inductive Need where
  | nothing
  | value
  | maybeValue
deriving DecidableEq

structure Switch where
  key : String
  words : List String
  need : Need := .nothing
  /-- Whether the value has to be a whole number. -/
  isNumber : Bool := false

structure Operand where
  key : String
  isOptional : Bool := false

/-- What a tool takes. -/
structure Usage where
  switches : List Switch := []
  operands : List Operand := []
  /-- Exactly one of these has to be given. -/
  oneOf : List String := []

/-- What was given, in order; a switch without a value has none. -/
structure Given where
  entries : List (String × Option String) := []

namespace Given

def add (g : Given) (key : String) (value : Option String) : Given := ⟨g.entries ++ [(key, value)]⟩

def has (g : Given) (key : String) : Bool := g.entries.any (·.1 == key)

def count (g : Given) (key : String) : Nat := (g.entries.filter (·.1 == key)).length

def value? (g : Given) (key : String) : Option String :=
  (g.entries.reverse.find? (·.1 == key)).bind (·.2)

def text? (g : Given) (key : String) : Option String := (g.value? key).filter (!·.isEmpty)

def number? (g : Given) (key : String) : Option Int := (g.value? key).bind (Number.read? 10)

end Given

/-! ### Kinds of arguments -/

inductive Argument where
  | operand (text : String)
  /-- The mark after which everything is an operand. -/
  | divider
  /-- A switch under the word that was meant, with a value that was attached to it. -/
  | switch (s : Switch) (word : String) (attached : Option String)

namespace Argument

def isNegativeNumber (cs : List Char) : Bool :=
  match cs with
  | '-' :: cs =>
    let rest := cs.dropWhile Char.isDigit
    match rest with
    | [] => !cs.isEmpty
    | '.' :: fraction => !fraction.isEmpty && fraction.all Char.isDigit
    | _ => false
  | _ => false

/-- A text before and after the first `=`. -/
def atEquals (cs : List Char) : List Char × Option String :=
  match cs.dropWhile (· != '=') with
  | [] => (cs, none)
  | _ :: value => (cs.takeWhile (· != '='), some (String.ofList value))

def meanings (u : Usage) (text : String) : List Argument :=
  let cs := text.toList
  let words := u.switches.flatMap fun s => s.words.map fun w => (w, s)
  if Text.hasStart "--" text then
    let (start, value) := atEquals cs
    (words.filter fun (w, _) => start.isPrefixOf w.toList).map fun (w, s) => switch s w value
  else
    words.filterMap fun (w, s) =>
      if w.toList == cs.take 2 then some (switch s w (some (String.ofList (cs.drop 2))))
      else if cs.isPrefixOf w.toList then some (switch s w none)
      else none

/-- The kind of an argument before the divider; none if it means nothing. -/
def ofText? (u : Usage) (text : String) : Option Argument :=
  let cs := text.toList
  let exact (word : String) (value : Option String) : Option Argument :=
    (u.switches.find? (·.words.contains word)).map fun s => switch s word value
  let attached : Option Argument :=
    match atEquals cs with
    | (start, some value) => exact (String.ofList start) (some value)
    | _ => none
  if cs.head? != some '-' || cs.length == 1 then some (operand text)
  else
    match exact text none, attached, meanings u text with
    | some a, _, _ => some a
    | none, some a, _ => some a
    | none, none, [a] => some a
    | none, none, _ :: _ :: _ => none
    | none, none, [] => if isNegativeNumber cs || cs.contains ' ' then some (operand text) else none

def classify (u : Usage) : List String → Option (List Argument)
  | [] => some []
  | "--" :: rest => some (divider :: rest.map operand)
  | a :: rest => do return (← ofText? u a) :: (← classify u rest)

def isSwitch : Argument → Bool
  | switch .. => true
  | _ => false

end Argument

/-! ### Reading -/

open Argument

def Given.take? (g : Given) (s : Switch) (value : Option String) : Option Given :=
  match value with
  | some v => if s.isNumber && (Number.read? 10 v).isNone then none else some (g.add s.key (some v))
  | none => some (g.add s.key none)

def skipDividers (as : List Argument) : List Argument := as.dropWhile fun
  | .divider => true
  | _ => false

/-- Give out a run of operands, as far as it goes. Tells what is still wanted and what is left. -/
def giveOut (g : Given) : List Operand → List Argument → Given × List Operand × List Argument
  | [], as => (g, [], as)
  | o :: os, as =>
    match skipDividers as with
    | .operand t :: rest => giveOut (g.add o.key (some t)) os (skipDividers rest)
    | rest => if o.isOptional then giveOut g os rest else (g, o :: os, as)

/-- Short switches that were written together: the rest of a word is more switches, until one of
them takes it as its value. The last one may still take its value from what follows. -/
def together (u : Usage) (g : Given) (s : Switch) (word : String) : List Char → Option (Given × List Argument)
  | [] => none
  | c :: cs =>
    if s.need != .nothing then do return (← g.take? s (some (String.ofList (c :: cs))), [])
    else if Text.hasStart "--" word then none
    else do
      let g ← g.take? s none
      let next := String.ofList ['-', c]
      let t ← u.switches.find? (·.words.contains next)
      if cs.isEmpty then return (g, [.switch t next none]) else together u g t next cs

/-- Go through the arguments. Every second round takes one at least. -/
def Usage.readFrom (u : Usage) : Nat → Given → List Operand → List Argument → Option Given
  | 0, _, _, _ => none
  | fuel + 1, g, wanted, as =>
    if !as.any Argument.isSwitch then
      let (g, wanted, rest) := giveOut g wanted as
      if rest.isEmpty && wanted.all (·.isOptional) then some g else none
    else
      match as with
      | .switch s word (some value) :: rest => do
        let (g, more) ←
          if value.isEmpty then (if s.need == .nothing then none else (g.take? s (some "")).map (·, []))
          else together u g s word value.toList
        u.readFrom fuel g wanted (more ++ rest)
      | .switch s _ none :: rest =>
        match s.need, rest with
        | .nothing, _ => do u.readFrom fuel (← g.take? s none) wanted rest
        | _, .operand t :: rest => do u.readFrom fuel (← g.take? s (some t)) wanted rest
        | .maybeValue, _ => do u.readFrom fuel (← g.take? s none) wanted rest
        | .value, _ => none
      | as =>
        let (g, wanted, rest) := giveOut g wanted as
        if rest.length < as.length then u.readFrom fuel g wanted rest else none

def Usage.read (u : Usage) (args : List String) : Option Given := do
  let as ← Argument.classify u args
  let g ← u.readFrom (2 * as.length + 1) {} u.operands as
  if u.oneOf.isEmpty || (u.oneOf.filter fun k => (g.value? k).isSome).length == 1 then some g else none

end GlyphRules.Tool
