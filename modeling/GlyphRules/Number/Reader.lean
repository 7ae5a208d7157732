import GlyphRules.Fault
import GlyphRules.Text.Basic

/-! Reading whole numbers.

A number may have blanks around it, a sign, and single low lines between its
digits. In base sixteen it may start with `0x`. -/
namespace GlyphRules.Number

def digitValue? (c : Char) : Option Nat :=
  if c.isDigit then some (c.toNat - 48)
  else if 'a' ≤ c && c ≤ 'z' then some (c.toNat - 87)
  else if 'A' ≤ c && c ≤ 'Z' then some (c.toNat - 55)
  else none

/-- Digits with single low lines between them. -/
def readDigits (base : Nat) : List Char → Bool → Option Nat → Option Nat
  | [], afterDigit, acc => if afterDigit then acc else none
  | '_' :: cs, afterDigit, acc => if afterDigit then readDigits base cs false acc else none
  | c :: cs, _, acc => do
    let d ← digitValue? c
    if d < base then readDigits base cs true (some (acc.getD 0 * base + d)) else none

/-- A number without its sign; a mark of the base may come first. -/
def readUnsigned (base : Nat) (cs : List Char) : Option Nat :=
  match base, cs with
  | 16, '0' :: x :: rest =>
    if x == 'x' || x == 'X' then
      match rest with
      | '_' :: rest => readDigits base rest false none
      | rest => readDigits base rest false none
    else readDigits base cs false none
  | _, _ => readDigits base cs false none

def read? (base : Nat) (s : String) : Option Int :=
  match Text.trim s.toList with
  | '-' :: cs => (readUnsigned base cs).map fun n => -(n : Int)
  | '+' :: cs => (readUnsigned base cs).map Int.ofNat
  | cs => (readUnsigned base cs).map Int.ofNat

def read (s : String) : Except Fault Int :=
  match read? 10 s with
  | some n => .ok n
  | none => .error .badValue

end GlyphRules.Number
