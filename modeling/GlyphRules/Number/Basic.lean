import GlyphRules.Number.Shortest

/-! Numbers of a font.

A coordinate or a width is an integer, or a binary fraction once something has been divided. The two
are written differently, so they are kept apart: integers stay integers under sums and differences,
and anything that meets a fraction becomes one. -/
namespace GlyphRules

/-- An integer or a binary fraction. -/
inductive Number where
  | int (n : Int)
  | real (x : Float)
deriving Inhabited

namespace Number

instance (n : Nat) : OfNat Number n := ⟨.int n⟩

def toFloat : Number → Float
  | int n => Float.ofInt n
  | real x => x

def lift (onInt : Int → Int → Int) (onReal : Float → Float → Float) : Number → Number → Number
  | int a, int b => int (onInt a b)
  | a, b => real (onReal a.toFloat b.toFloat)

instance : Add Number := ⟨lift (· + ·) (· + ·)⟩
instance : Sub Number := ⟨lift (· - ·) (· - ·)⟩
instance : Mul Number := ⟨lift (· * ·) (· * ·)⟩
instance : Neg Number := ⟨fun | int n => int (-n) | real x => real (-x)⟩

def div (a b : Number) : Number := real (a.toFloat / b.toFloat)

def lt : Number → Number → Bool
  | int a, int b => a < b
  | a, b => a.toFloat < b.toFloat

def eq : Number → Number → Bool
  | int a, int b => a == b
  | a, b => a.toFloat == b.toFloat

instance : BEq Number := ⟨eq⟩

def le (a b : Number) : Bool := lt a b || eq a b

/-- The first of two, unless the second is greater. -/
def max (a b : Number) : Number := if lt a b then b else a

/-- The first of two, unless the second is smaller. -/
def min (a b : Number) : Number := if lt b a then b else a

def isZero (a : Number) : Bool := a == int 0

def abs : Number → Number
  | int n => int n.natAbs
  | real x => real x.abs

/-- The number cut to an integer, towards zero. -/
def truncate : Number → Int
  | int n => n
  | real x => (Decimal.truncate? x).getD 0

def ceil : Number → Int
  | int n => n
  | real x => (Decimal.truncate? x.ceil).getD 0

/-- The nearest integer, halves to the even one. -/
def round : Number → Int
  | int n => n
  | real x => (Decimal.round? x).getD 0

/-- Integers in decimal, fractions with the fewest digits that read back. -/
def text : Number → String
  | int n => toString n
  | real x => Decimal.text x

end Number
end GlyphRules
