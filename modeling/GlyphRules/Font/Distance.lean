import GlyphRules.Font.Metrics

/-! The distance between outlines, and the kern that brings two glyphs to a distance.

Outlines are closed rows of straight segments. Their distance is that of the two segments whose
samples come nearest, found by halving both as long as the answer can become smaller. -/
namespace GlyphRules.Outline

structure Vec where
  x : Float
  y : Float
deriving Inhabited

namespace Vec

def dot (a b : Vec) : Float := a.x * b.x + a.y * b.y

def add (a b : Vec) : Vec := ⟨a.x + b.x, a.y + b.y⟩

def scale (a : Vec) (k : Float) : Vec := ⟨a.x * k, a.y * k⟩

def squaredDistance (a b : Vec) : Float := (a.x - b.x) * (a.x - b.x) + (a.y - b.y) * (a.y - b.y)

end Vec

/-- A straight line between two points. -/
structure Segment where
  first : Vec
  last : Vec

def segments (offset : Vec) (c : Contour) : List Segment :=
  let points := c.map fun (x, y) => (⟨x.toFloat + offset.x, y.toFloat + offset.y⟩ : Vec)
  match points with
  | [] => []
  | p :: ps => (points.zip (ps ++ [p])).map fun (a, b) => ⟨a, b⟩

/-! ### Two segments -/

/-- How the squared distance of two segments depends on the places on them: nine numbers. -/
structure Spread where
  at00 : Float
  at01 : Float
  at02 : Float
  at10 : Float
  at11 : Float
  at12 : Float
  at20 : Float
  at21 : Float
  at22 : Float

namespace Spread

def ofSegments (p q : Segment) : Spread :=
  let squares (s : Segment) : List Float :=
    [s.first.dot s.first, s.first.dot s.last / 2 + s.last.dot s.first / 2, s.last.dot s.last]
  let middles (s : Segment) : List Vec :=
    [s.first, (s.first.scale 0.5).add (s.last.scale 0.5), s.last]
  let d (r k : Nat) : Float :=
    (squares p).getD r 0 + (squares q).getD k 0 - 2 * ((middles p).getD r default).dot ((middles q).getD k default)
  ⟨d 0 0, d 0 1, d 0 2, d 1 0, d 1 1, d 1 2, d 2 0, d 2 1, d 2 2⟩

/-- The squared distance between places on the two segments. -/
def value (s : Spread) (u v : Float) : Float :=
  let u0 := (1 - u) * (1 - u)
  let u1 := 2 * (1 - u) * u
  let u2 := u * u
  let v0 := (1 - v) * (1 - v)
  let v1 := 2 * (1 - v) * v
  let v2 := v * v
  s.at00 * u0 * v0 + s.at01 * u0 * v1 + s.at02 * u0 * v2 + s.at10 * u1 * v0 + s.at11 * u1 * v1 + s.at12 * u1 * v2 +
    s.at20 * u2 * v0 + s.at21 * u2 * v1 + s.at22 * u2 * v2

/-- The numbers of the corner that tells whether halving can help. -/
def corner (s : Spread) : List Float := [s.at00, s.at01, s.at10, s.at11]

/-- Whether no number of the corner is below its own number of the second list. -/
def noneBelow (s : Spread) (bounds : List Float) : Bool := (s.corner.zip bounds).all fun (d, b) => !(d < b)

/-- The ends of the segments between which the least distance lies, if that is so; each is told
by whether it is the upper end. -/
def bestEnds? (s : Spread) : Option (Bool × Bool) :=
  let firstLow := s.noneBelow [s.at00, s.at01, s.at00, s.at01]
  let firstHigh := s.noneBelow [s.at20, s.at21, s.at20, s.at21]
  let secondLow := s.noneBelow [s.at00, s.at00, s.at10, s.at10]
  let secondHigh := s.noneBelow [s.at02, s.at02, s.at12, s.at12]
  if firstLow && secondLow then some (false, false)
  else if firstLow && secondHigh then some (false, true)
  else if firstHigh && secondLow then some (true, false)
  else if firstHigh && secondHigh then some (true, true)
  else none

def least (l : List Float) : Float :=
  match l with
  | [] => 0
  | a :: as => as.foldl (fun m x => if x < m then x else m) a

/-- The least squared distance with places between the given bounds, by halving. The best answer
so far is passed on from part to part. -/
def leastWithin (s : Spread) : Nat → (u0 u1 v0 v1 : Float) → Option Float → Float × Option Float
  | 0, u0, _, v0, _, best => (s.value u0 v0, best)
  | fuel + 1, u0, u1, v0, v1, best =>
    let a := least [s.value u0 v0, s.value u0 v1, s.value u1 v0, s.value u1 v1]
    if best.any fun b => b != 0 && a > b then (a, best)
    else
      let best := some a
      if u1 - u0 ≤ 0.001 || v1 - v0 ≤ 0.001 then (a, best)
      else if s.corner.all fun d => !(d < a) then (a, best)
      else
        match s.bestEnds? with
        | some (high1, high2) => (s.value (if high1 then u1 else u0) (if high2 then v1 else v0), best)
        | none =>
          let um := (u0 + u1) / 2
          let vm := (v0 + v1) / 2
          let (a, best) := s.leastWithin fuel u0 um v0 vm best
          let (b, best) := s.leastWithin fuel u0 um vm v1 best
          let (c, best) := s.leastWithin fuel um u1 v0 vm best
          let (d, best) := s.leastWithin fuel um u1 vm v1 best
          (least [a, b, c, d], best)

end Spread

def segmentDistance (p q : Segment) : Float :=
  ((Spread.ofSegments p q).leastWithin 12 0 1 0 1 none).1.sqrt

/-! ### Two outlines -/

def samples (s : Segment) : List Vec :=
  let third : Float := 1.0 / 3
  [0, third, third + third, third + third + third].map fun t => (s.first.scale (1 - t)).add (s.last.scale t)

def sampleDistance (p q : Segment) : Float :=
  Spread.least ((samples p).flatMap fun a => (samples q).map fun b => a.squaredDistance b)

/-- The item with the least measure. A measure of zero gives way to any later one. -/
def leastBy {α : Type} (measure : α → Float) (l : List α) : Option (α × Float) :=
  l.foldl (fun (best : Option (α × Float)) a =>
    let m := measure a
    match best with
    | none => some (a, m)
    | some (_, b) => if b == 0 || m < b then some (a, m) else best) none

def pathDistance (p q : List Segment) : Option Float :=
  let pairs := p.flatMap fun a => q.map fun b => (a, b)
  (leastBy (fun (a, b) => sampleDistance a b) pairs).map fun ((a, b), _) => segmentDistance a b

def groupDistance (ps qs : List (List Segment)) : Option Float :=
  (leastBy id ((ps.flatMap fun p => qs.map fun q => (p, q)).filterMap fun (p, q) => pathDistance p q)).map (·.2)

/-! ### Kerning -/

/-- Move the second glyph until the distance is right, or no longer becomes smaller. -/
def approach (distanceAt : Float → Option Float) (target : Float) : Nat → Float → Option Float → Option Float
  | 0, kern, _ => some kern
  | fuel + 1, kern, last => do
    let m ← distanceAt kern
    if last.all fun l => l == 0 || m < l then
      if (m - target).abs < 1 || fuel == 0 then return kern
      else approach distanceAt target fuel (kern + (target - m)) (some m)
    else return kern

/-- The kern that brings the outline of the second glyph to a distance from the first, which is
raised by `rise`. Both need outlines. -/
def kern (g1 g2 : Glyph) (target rise : Int) : Except Fault Int := do
  if g1.contours.isEmpty || g2.contours.isEmpty then throw .wrongKind
  let some b := g1.bounds? | throw .wrongKind
  let width := g1.width.toFloat
  let rsb := (g1.width - b.right).toFloat
  let xMax := b.right.toFloat
  let first := g1.contours.map (segments ⟨0, Float.ofInt rise⟩)
  let distanceAt (k : Float) := groupDistance first (g2.contours.map (segments ⟨width + k, 0⟩))
  let some k := approach distanceAt (Float.ofInt target) 12 0 none | throw .wrongKind
  let k := k - rsb
  let k := if k < -(xMax * (1 + 0.4)) + rsb then -(xMax * (1 + 0.4)) + rsb else k
  let k := if k < -width then -width else k
  return (Number.real k).truncate

end GlyphRules.Outline
