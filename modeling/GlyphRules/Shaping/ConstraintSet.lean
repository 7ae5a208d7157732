import GlyphRules.Dict
import GlyphRules.Fault
import GlyphRules.Text.Basic

/-! Sets of prohibited sequences.

A set is a single sequence of code points, or branches by the first one. A text is prohibited when
one of the sequences stands at its start, so a sequence makes all longer ones superfluous. The set
is written as the statements that test for it. -/
namespace GlyphRules.Shaping

inductive ConstraintSet where
  /-- One prohibited sequence. -/
  | sequence (codes : List Nat)
  /-- What may not follow each first code point. -/
  | branches (entries : List (Nat × ConstraintSet))

namespace ConstraintSet

/-- Put a sequence that starts with a code point among branches, given how to add its rest. -/
def insert (first : Nat) (rest : List Nat) (addRest : ConstraintSet → ConstraintSet)
    (entries : List (Nat × ConstraintSet)) : List (Nat × ConstraintSet) :=
  if entries.any (·.1 == first) then entries.map fun (k, s) => if k == first then (k, addRest s) else (k, s)
  else entries ++ [(first, .sequence rest)]

/-- Add a sequence. The empty sequence adds nothing; of two sequences one of which starts with
the other the shorter one stays. -/
def add : List Nat → ConstraintSet → ConstraintSet
  | [], s => s
  | first :: rest, .sequence codes =>
    if (first :: rest).isPrefixOf codes then .sequence (first :: rest)
    else
      match codes with
      | [] => .sequence []
      | c :: cs =>
        if codes.isPrefixOf (first :: rest) then .sequence codes
        else .branches (insert first rest (add rest) [(c, .sequence cs)])
  | first :: rest, .branches entries => .branches (insert first rest (add rest) entries)

def ofList (first : List Nat) (more : List (List Nat)) : ConstraintSet :=
  more.foldl (fun s codes => add codes s) (.sequence first)

mutual
def prohibits : ConstraintSet → List Nat → Bool
  | .sequence codes, text => codes.isPrefixOf text
  | .branches _, [] => false
  | .branches entries, c :: text => prohibitsAfter entries c text

/-- Whether a text is prohibited after a first code point. -/
def prohibitsAfter : List (Nat × ConstraintSet) → Nat → List Nat → Bool
  | [], _, _ => false
  | (k, s) :: rest, c, text => (k == c && s.prohibits text) || prohibitsAfter rest c text
end

/-! ### Text -/

def indent (depth : Nat) : String := String.join (List.replicate depth "    ")

def codeText (code : Nat) : String := "0x" ++ Text.hex4 code

def itemText (index : Nat) : String :=
  if index == 0 then "buffer.items[i].codepoint" else "buffer.items[i+" ++ toString index ++ "].codepoint"

def followingTests (index depth : Nat) : Nat → List Nat → String
  | _, [] => ""
  | i, c :: cs =>
    indent (depth + 2) ++ codeText c ++ " == " ++ itemText (index + i) ++ (if cs.isEmpty then "):" else "and") ++
      "\n" ++ followingTests index depth (i + 1) cs

/-- The test for one sequence from an item on. What is left of a sequence when one or two items
have been tested takes a short form, which holds for pairs only. -/
def sequenceText (index depth : Nat) : List Nat → Except Fault String
  | [] => if index == 2 then .ok (indent depth ++ "matched = True\n") else .error .brokenPromise
  | [c] =>
    if index == 1 then .ok (indent depth ++ "matched = " ++ codeText c ++ " == " ++ itemText index ++ "\n")
    else .error .brokenPromise
  | c :: cs =>
    .ok (indent depth ++ "if (" ++ codeText c ++ " == " ++ itemText index ++ " and\n" ++
      (if index == 0 then ""
        else indent (depth + 2) ++ "i + " ++ toString (index + 1) ++ " < len(buffer.items)-1 and\n") ++
      followingTests index depth 1 cs ++ indent (depth + 1) ++ "matched = True\n")

/-- The test for the first code point of some branches. -/
def branchText (index depth : Nat) (body : String) (codes : List Nat) : String :=
  let wanted := match codes with
    | [c] => " == " ++ codeText c
    | cs => " in [" ++ Text.join ", " (cs.map codeText) ++ "]"
  indent (depth + 1) ++ "if " ++ itemText index ++ wanted ++ ":\n" ++ body

mutual
/-- The tests for a set, for the item so many places on and at a depth of indentation. -/
def text (index depth : Nat) : ConstraintSet → Except Fault String
  | .sequence codes => sequenceText index depth codes
  | .branches entries => do
    let tests ← texts (index + 1) (depth + 2) entries
    let sorted := tests.mergeSort fun a b => decide (a.1 ≤ b.1)
    return String.join ((groupBy sorted).map fun (body, codes) => branchText index depth body codes)

def texts (index depth : Nat) : List (Nat × ConstraintSet) → Except Fault (List (Nat × String))
  | [] => .ok []
  | (code, s) :: rest => do return (code, ← s.text index depth) :: (← texts index depth rest)
end

end ConstraintSet
end GlyphRules.Shaping
