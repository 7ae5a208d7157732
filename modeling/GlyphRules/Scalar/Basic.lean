import GlyphRules.Fault
import GlyphRules.Number.Basic

/-! Scalars that may vary over a design space.

A `Location` gives a coordinate on each axis. A `VariableScalar` knows its value at some locations,
all normalised: the default of an axis is zero, its ends are one away. Locations are compared axis
by axis, whatever their order and spelling. -/
namespace GlyphRules

/-- An axis of the design space, in the units of the user. -/
structure Axis where
  tag : String
  minimum : Number
  default : Number
  maximum : Number

/-- Coordinates by axis, in the order they were given. -/
abbrev Location := List (String × Number)

namespace Location

def get? (l : Location) (tag : String) : Option Number := (l.find? (·.1 == tag)).map (·.2)

def same (a b : Location) : Bool :=
  a.length == b.length && a.all fun (tag, v) =>
    match b.get? tag with
    | some w => v == w
    | none => false

end Location

/-- A coordinate on an axis brought to between minus one and one. -/
def Axis.normalise (axis : Axis) (v : Number) : Except Fault Number :=
  if !(Number.le axis.minimum axis.default && Number.le axis.default axis.maximum) then
    .error .badValue
  else
    let v := Number.max (Number.min v axis.maximum) axis.minimum
    if v == axis.default || axis.minimum == axis.maximum then .ok (.real 0.0)
    else if (Number.lt v axis.default && !(axis.minimum == axis.default)) ||
        (Number.lt axis.default v && axis.maximum == axis.default) then
      .ok (Number.div (v - axis.default) (axis.default - axis.minimum))
    else .ok (Number.div (v - axis.default) (axis.maximum - axis.default))

/-- A way to bring a coordinate on an axis to its normal form. -/
abbrev Scale := Axis → Number → Except Fault Number

/-- A value at each of some locations. -/
structure VariableScalar where
  axes : List Axis
  values : List (Location × Number)

namespace VariableScalar

def normalise (axes : List Axis) (l : Location) (scale : Scale := Axis.normalise) :
    Except Fault Location := do
  let given ← l.mapM fun (tag, v) =>
    match axes.find? (·.tag == tag) with
    | none => .error (.wrongKindSaid .axisText)
    | some axis => return (tag, ← scale axis v)
  let others := axes.filter fun a => !(given.any (·.1 == a.tag))
  return given ++ (Text.distinct (others.map (·.tag))).map fun t => (t, .int 0)

/-- Set the value at a normalised location; a known location keeps its place. -/
def insert (values : List (Location × Number)) (l : Location) (v : Number) :
    List (Location × Number) :=
  if values.any (·.1.same l) then
    values.map fun (k, w) => if k.same l then (k, v) else (k, w)
  else values ++ [(l, v)]

def add (s : VariableScalar) (l : Location) (v : Number) (scale : Scale := Axis.normalise) :
    Except Fault VariableScalar := do
  return { s with values := insert s.values (← normalise s.axes l scale) v }

def find? (s : VariableScalar) (l : Location) : Option Number :=
  (s.values.find? (·.1.same l)).map (·.2)

def atDefault (s : VariableScalar) : Except Fault Number :=
  match s.find? ((Text.distinct (s.axes.map (·.tag))).map fun t => (t, .int 0)) with
  | some v => .ok v
  | none => .error (.refused .noDefault)

/-- Every location with its value, the numbers cut to integers. -/
def text (s : VariableScalar) : String :=
  "(" ++ Text.join " " (s.values.map fun (l, v) =>
    Text.join "," (l.map fun (tag, c) => tag ++ "=" ++ toString c.truncate) ++ ":" ++
      toString v.truncate) ++ ")"

end VariableScalar

inductive Scalar where
  | fixed (n : Number)
  | varying (v : VariableScalar)
deriving Inhabited

namespace Scalar

def int (n : Int) : Scalar := fixed (.int n)

def counts : Scalar → Bool
  | fixed n => !n.isZero
  | varying _ => true

/-- Fixed numbers are compared by value; what varies is equal to nothing else. -/
def same : Scalar → Scalar → Bool
  | fixed a, fixed b => a == b
  | _, _ => false

def text : Scalar → String
  | fixed n => n.text
  | varying v => v.text

end Scalar
end GlyphRules
