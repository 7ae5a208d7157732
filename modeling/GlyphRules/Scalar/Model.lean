import GlyphRules.Scalar.Basic

/-! Interpolation between masters.

Every master acts in a box around its location, its support, where its own location has full weight.
Masters closer to the default are accounted for first: the delta of a master is its value less what
the masters before it give there. -/
namespace GlyphRules

/-- Where a master acts on one axis: from the lower end up to the peak and down to the upper end. -/
structure Tent where
  lower : Number
  peak : Number
  upper : Number

/-- The tents of a master, by axis. The master at the default has none. -/
abbrev Support := List (String × Tent)

/-- How much of a tent is reached at a coordinate. -/
def Tent.factor (t : Tent) (v : Number) : Float :=
  if t.peak.isZero || Number.lt t.peak t.lower || Number.lt t.upper t.peak ||
      (Number.lt t.lower 0 && Number.lt 0 t.upper) || v == t.peak then 1.0
  else if Number.le v t.lower || Number.le t.upper v then 0.0
  else if Number.lt v t.peak then (v.toFloat - t.lower.toFloat) / (t.peak.toFloat - t.lower.toFloat)
  else (v.toFloat - t.upper.toFloat) / (t.peak.toFloat - t.upper.toFloat)

/-- How much a master counts at a location: the product over its tents, zero as soon as one is missed. -/
def Support.factor (s : Support) (l : Location) : Float :=
  go 1.0 s
where
  go (acc : Float) : Support → Float
    | [] => acc
    | (tag, t) :: rest =>
      let v := (l.get? tag).getD (.real 0.0)
      let f := t.factor v
      if f == 0.0 then 0.0 else if v == t.peak then go acc rest else go (acc * f) rest

structure VariationModel where
  /-- For each master in order, its place among the masters as given. -/
  places : List Nat
  locations : List Location
  supports : List Support
  /-- For each master, how much the masters before it count at its location. -/
  weights : List (List (Nat × Float))

namespace VariationModel

def isNonzero (p : String × Number) : Bool := !p.2.isZero

def sign (n : Number) : Int := if Number.lt n 0 then -1 else if Number.lt 0 n then 1 else 0

/-- Compare lists entry by entry; a list that ends comes first. -/
def compareLists {α : Type} (cmp : α → α → Ordering) : List α → List α → Ordering
  | [], [] => .eq
  | [], _ => .lt
  | _, [] => .gt
  | a :: as, b :: bs => (cmp a b).then (compareLists cmp as bs)

def compareNumbers (a b : Number) : Ordering :=
  if Number.lt a b then .lt else if Number.lt b a then .gt else .eq

def axisPoints (locations : List Location) : List (String × Number) :=
  locations.filterMap fun
    | [p] => some p
    | _ => none

/-- How many coordinates of a location occur alone on their axis. -/
def onPoint (points : List (String × Number)) (l : Location) : Nat :=
  (l.filter fun (tag, v) => points.any fun (t, w) => t == tag && w == v).length

/-- Fewer axes first, then more points on axes, then by axes, signs and sizes. -/
def compare (points : List (String × Number)) (a b : Location) : Ordering :=
  let sorted (l : Location) : Location := l.mergeSort fun p q => Text.le p.1 q.1
  let (sa, sb) := (sorted a, sorted b)
  (Ord.compare a.length b.length)
    |>.then (Ord.compare (onPoint points b) (onPoint points a))
    |>.then (compareLists Ord.compare (sa.map (·.1)) (sb.map (·.1)))
    |>.then (compareLists Ord.compare (sa.map fun p => sign p.2) (sb.map fun p => sign p.2))
    |>.then (compareLists compareNumbers (sa.map fun p => p.2.abs) (sb.map fun p => p.2.abs))

/-- The box of each master before other masters cut it: from zero to the last master of its axis. -/
def regions (locations : List Location) : List Support :=
  let extreme (pick : Number → Number → Number) (tag : String) (v : Number) : Number :=
    (locations.filterMap (·.get? tag)).foldl (fun m w => pick w m) v
  locations.map fun l => l.map fun (tag, v) =>
    if Number.lt 0 v then (tag, ⟨0, v, extreme Number.max tag v⟩)
    else (tag, ⟨extreme Number.min tag v, v, 0⟩)

def tent? (s : Support) (tag : String) : Option Tent := (s.find? (·.1 == tag)).map (·.2)

/-- Whether an earlier master lies in the box, on the same axes. -/
def isRelevant (region previous : Support) : Bool :=
  region.length == previous.length && region.all fun (tag, t) =>
    match tent? previous tag with
    | none => false
    | some p => p.peak == t.peak || (Number.lt t.lower p.peak && Number.lt p.peak t.upper)

/-- How an earlier master would cut a box on one axis, and how far out the cut lies. -/
def cut? (region : Support) (tag : String) (previous : Tent) : Option (Number × String × Tent) := do
  let t ← tent? region tag
  let v := previous.peak
  if Number.lt v t.peak then
    some (Number.div (v - t.peak) (t.lower - t.peak), tag, { t with lower := v })
  else if Number.lt t.peak v then
    some (Number.div (v - t.peak) (t.upper - t.peak), tag, { t with upper := v })
  else none

/-- Cut a box by an earlier master, on the axes where the cut lies farthest out. -/
def cutBy (region previous : Support) : Support :=
  if !isRelevant region previous then region
  else
    let cuts := previous.filterMap fun (tag, t) => cut? region tag t
    let best := cuts.foldl (fun m (r, _) => Number.max m r) (.int (-1))
    let chosen := cuts.filter fun (r, _) => r == best
    region.map fun (tag, t) => (tag, ((chosen.find? (·.2.1 == tag)).map (·.2.2)).getD t)

def supportsOf (rs : List Support) : List Support :=
  rs.foldl (fun done r => done ++ [done.foldl cutBy r]) []

def make (locations : List Location) : Except Fault VariationModel :=
  let bare := locations.map fun l => l.filter isNonzero
  if !bare.any List.isEmpty then .error .noBaseMaster
  else
    let points := axisPoints bare
    let sorted := bare.zipIdx.mergeSort fun a b => compare points a.1 b.1 != .gt
    let ordered := sorted.map (·.1)
    let supports := supportsOf (regions ordered)
    let weights := ordered.zipIdx.map fun (l, i) =>
      ((supports.take i).zipIdx.map fun (s, j) => (j, s.factor l)).filter fun (_, w) => w != 0.0
    .ok ⟨sorted.map (·.2), ordered, supports, weights⟩

/-- What each master adds to those before it. -/
def deltas (m : VariationModel) (values : List Number) : List Number :=
  (m.places.zip m.weights).foldl (fun out (place, weights) =>
    let delta := weights.foldl (fun d (j, w) =>
      let o := out.getD j 0
      if w == 1.0 then d - o else d - o * .real w) (values.getD place 0)
    out ++ [delta]) []

/-- How much each master, as given, counts at a location. -/
def scalars (m : VariationModel) (l : Location) : List Float :=
  let start := (m.supports.map (·.factor l)).toArray
  let n := start.size
  let out := (List.range n).reverse.foldl (fun acc i =>
    (m.weights.getD i []).foldl (fun acc (j, w) => acc.modify j (· - acc.getD i 0.0 * w)) acc) start
  (List.range n).map fun place => out.getD (m.places.idxOf place) 0.0

/-- The value between the masters; nothing if no master counts. -/
def interpolate (m : VariationModel) (l : Location) (values : List Number) : Option Number :=
  (values.zip (m.scalars l)).foldl (fun v (value, scalar) =>
    if scalar == 0.0 then v
    else
      let term := value * .real scalar
      match v with
      | none => some term
      | some v => some (v + term)) none

end VariationModel

namespace VariableScalar

def model (s : VariableScalar) : Except Fault VariationModel := VariationModel.make (s.values.map (·.1))

def valueAt (s : VariableScalar) (l : Location) (scale : Scale := Axis.normalise) :
    Except Fault (Option Number) := do
  let l ← normalise s.axes l scale
  match s.find? l with
  | some v => return some v
  | none => return (← s.model).interpolate l (s.values.map (·.2))

def deltasAndSupports (s : VariableScalar) : Except Fault (List Number × List Support) := do
  let m ← s.model
  return (m.deltas (s.values.map (·.2)), m.supports)

end VariableScalar
end GlyphRules
