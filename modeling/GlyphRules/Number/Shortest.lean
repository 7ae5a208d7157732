import GlyphRules.Text.Basic

/-! Decimal forms of binary fractions.

A finite double is `± m · 2^q`. `Decimal.shortest` finds the fewest significant digits that read
back as the same double, the nearest of them, by exact integer arithmetic on the interval of reals
that round to it. `Decimal.fixed` rounds to a number of places, halves to even. -/
namespace GlyphRules.Decimal

/-- A finite double as sign, significand and power of two; nothing for the others. -/
structure Parts where
  negative : Bool
  significand : Nat
  power : Int
  /-- Whether the gap below is half as wide as the one above. -/
  atBoundary : Bool

def parts? (x : Float) : Option Parts :=
  let bits := x.toBits.toNat
  let negative := bits >>> 63 == 1
  let exponent : Nat := (bits >>> 52) % 2048
  let fraction : Nat := bits % (1 <<< 52)
  if exponent == 2047 then none
  else if exponent == 0 then some ⟨negative, fraction, -1074, false⟩
  else some ⟨negative, fraction + 1 <<< 52, Int.ofNat exponent - 1075, fraction == 0 && exponent > 1⟩

/-- `num / den` rounded to the nearest integer, halves to the even one. -/
def roundDiv (num den : Nat) : Nat :=
  let q := num / den
  let r := num % den
  if 2 * r < den then q
  else if 2 * r > den then q + 1
  else if q % 2 == 0 then q else q + 1

def scaled (m : Nat) (q k : Int) : Nat × Nat :=
  let num := m <<< q.toNat * Nat.pow 10 k.toNat
  let den := 1 <<< (-q).toNat * Nat.pow 10 (-k).toNat
  (num, den)

/-- The number of decimal digits of a positive number. -/
def digitCount (n : Nat) : Nat := (Nat.toDigits 10 n).length

structure Scaled where
  digits : Nat
  exponent : Int
deriving BEq

/-- Whether `d · 10^e` lies in the interval of reals that round to `m · 2^q`. -/
def readsBack (p : Parts) (d : Nat) (e : Int) : Bool :=
  -- the interval is [4m - lower, 4m + 2] · 2^(q-2), its ends included iff m is even
  let low := 4 * p.significand - (if p.atBoundary then 1 else 2)
  let high := 4 * p.significand + 2
  let (vn, vd) := scaled d 0 e
  let (ln, ld) := scaled low (p.power - 2) 0
  let (hn, hd) := scaled high (p.power - 2) 0
  let closed := p.significand % 2 == 0
  if closed then ln * vd ≤ vn * ld && vn * hd ≤ hn * vd
  else ln * vd < vn * ld && vn * hd < hn * vd

/-- Try grids from coarse to fine; `e` is the power of ten of the grid. -/
def search (p : Parts) : Nat → Int → Scaled
  | 0, e =>
    let (num, den) := scaled p.significand p.power (-e)
    ⟨roundDiv num den, e⟩
  | fuel + 1, e =>
    let (num, den) := scaled p.significand p.power (-e)
    let down := num / den
    let near := roundDiv num den
    let far := if near == down then down + 1 else down
    if near != 0 && readsBack p near e then ⟨near, e⟩
    else if far != 0 && readsBack p far e then ⟨far, e⟩
    else search p fuel (e - 1)

/-- The fewest digits that read back as the double. -/
def shortest (p : Parts) : Scaled :=
  if p.significand == 0 then ⟨0, 0⟩
  else
    let (num, den) := scaled p.significand p.power 0
    let top : Int :=
      if den ≤ num then digitCount (num / den) else 1 - digitCount (den / num)
    let found := search p 20 top
    trimZeros 400 found
where
  trimZeros : Nat → Scaled → Scaled
    | 0, d => d
    | fuel + 1, d =>
      if d.digits != 0 && d.digits % 10 == 0 then trimZeros fuel ⟨d.digits / 10, d.exponent + 1⟩ else d

/-- Positional from 10^-4 to below 10^16, with a point and at least one digit after it; else
with an exponent of at least two digits. -/
def written (d : Scaled) : String :=
  let ds := (Nat.toDigits 10 d.digits)
  let n : Int := ds.length
  let point : Int := n + d.exponent
  if d.digits == 0 then "0.0"
  else if -4 < point && point ≤ 16 then
    if point ≤ 0 then "0." ++ String.ofList (List.replicate (-point).toNat '0' ++ ds)
    else if d.exponent ≥ 0 then
      String.ofList (ds ++ List.replicate d.exponent.toNat '0') ++ ".0"
    else String.ofList (ds.take point.toNat) ++ "." ++ String.ofList (ds.drop point.toNat)
  else
    let e := point - 1
    let mantissa := match ds with
      | [] => ""
      | [c] => String.ofList [c]
      | c :: rest => String.ofList (c :: '.' :: rest)
    let mark := if e < 0 then "e-" else "e+"
    mantissa ++ mark ++ Text.padLeft '0' 2 (toString e.natAbs)

def text (x : Float) : String :=
  match parts? x with
  | some p => (if p.negative then "-" else "") ++ written (shortest p)
  | none =>
    if x.isNaN then "nan" else if x < 0 then "-inf" else "inf"

def withPlaces (places : Nat) (negative : Bool) (units : Nat) : String :=
  let whole := toString (units / Nat.pow 10 places)
  let rest := Text.padLeft '0' places (toString (units % Nat.pow 10 places))
  let sign := if negative then "-" else ""
  if places == 0 then sign ++ whole else sign ++ whole ++ "." ++ rest

def fixed (places : Nat) (x : Float) : String :=
  match parts? x with
  | some p =>
    let (num, den) := scaled p.significand p.power places
    withPlaces places p.negative (roundDiv num den)
  | none => if x.isNaN then "nan" else if x < 0 then "-inf" else "inf"

/-- The integer part of a double, cut towards zero. -/
def truncate? (x : Float) : Option Int :=
  (parts? x).map fun p =>
    let (num, den) := scaled p.significand p.power 0
    let n : Int := (num / den : Nat)
    if p.negative then -n else n

/-- The nearest integer of a double, halves to the even one. -/
def round? (x : Float) : Option Int :=
  (parts? x).map fun p =>
    let (num, den) := scaled p.significand p.power 0
    let n : Int := (roundDiv num den : Nat)
    if p.negative then -n else n

end GlyphRules.Decimal
