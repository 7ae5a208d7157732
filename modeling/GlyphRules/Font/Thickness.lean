import GlyphRules.Font.Distance

/-! Measures of a single outline: its area and its thickness at a place.

Here a contour is the straight segments between its points, closed only if it ends with its first
point. Thickness is measured between the two lowest crossings with a ray that is almost upright,
along the normals of the segments met. -/
namespace GlyphRules.Outline

def openSegments (c : Contour) : List Segment :=
  let points := c.map fun (x, y) => (⟨x.toFloat, y.toFloat⟩ : Vec)
  (points.zip (points.drop 1)).map fun (a, b) => ⟨a, b⟩

/-- The least box around segments. -/
structure Box where
  left : Float
  bottom : Float
  right : Float
  top : Float

def boxOf? (l : List Segment) : Option Box :=
  match l.flatMap fun s => [s.first, s.last] with
  | [] => none
  | p :: ps => some (ps.foldl (fun b q =>
      ⟨if q.x < b.left then q.x else b.left, if q.y < b.bottom then q.y else b.bottom,
        if q.x > b.right then q.x else b.right, if q.y > b.top then q.y else b.top⟩) ⟨p.x, p.y, p.x, p.y⟩)

def area (l : List Segment) : Float :=
  (l.foldl (fun (sum : Float) (s : Segment) => sum + (s.first.x * s.last.y - s.first.y * s.last.x)) 0).abs / 2

def largest (paths : List (List Segment)) : Except Fault (List Segment) :=
  match paths with
  | [] => .error .badValue
  | p :: ps => .ok (ps.foldl (fun (best : List Segment × Float) q =>
      let a := area q
      if a > best.2 then (q, a) else best) (p, area p)).1

/-! ### Crossings -/

def tolerance : Float := 2e-7

def close (a b : Float) : Bool :=
  (a - b).abs ≤ 1e-9 * (if a.abs < b.abs then b.abs else a.abs)

namespace Segment

def isUpright (s : Segment) : Bool := close s.first.x s.last.x

def isLevel (s : Segment) : Bool := close s.first.y s.last.y

def hasLength (s : Segment) : Bool := s.first.x != s.last.x || s.first.y != s.last.y

def slope (s : Segment) : Float := (s.last.y - s.first.y) / (s.last.x - s.first.x)

def pointAt (s : Segment) (t : Float) : Vec := (s.first.scale (1 - t)).add (s.last.scale t)

/-- How far along a point is. -/
def timeOf (s : Segment) (p : Vec) : Float :=
  if close s.last.x s.first.x then (p.y - s.first.y) / (s.last.y - s.first.y)
  else (p.x - s.first.x) / (s.last.x - s.first.x)

/-- How far along a point is, or `-1` if it is beside the line. -/
def checkedTimeOf (s : Segment) (p : Vec) : Float :=
  let t := s.timeOf p
  if ((s.pointAt t).squaredDistance p).sqrt ≥ tolerance then -1 else t

def normal (s : Segment) : Vec :=
  let dx := s.last.x - s.first.x
  let dy := s.last.y - s.first.y
  let length := (dx * dx + dy * dy).sqrt
  ⟨-dy / length, dx / length⟩

end Segment

/-- A crossing of an outline: the segment, and how far along it. -/
structure Crossing where
  segment : Segment
  time : Float

def Crossing.point (c : Crossing) : Vec := c.segment.pointAt c.time

def sameSide (u v origin : Vec) : Bool :=
  !((u.x - origin.x) * (v.x - origin.x) ≤ 0 && (u.y - origin.y) * (v.y - origin.y) ≤ 0)

def crossing? (s ray : Segment) : Option Crossing :=
  let kept (t u : Float) : Option Crossing :=
    if t ≥ tolerance && t ≤ 1 + tolerance && u ≥ tolerance && u ≤ 1 + tolerance then some ⟨s, t⟩ else none
  let a := s.first
  let c := ray.first
  if (s.isUpright && ray.isUpright) || (s.isLevel && ray.isLevel) || !s.hasLength || !ray.hasLength then none
  else if s.isUpright then
    let p : Vec := ⟨a.x, ray.slope * (a.x - c.x) + c.y⟩
    kept (s.checkedTimeOf p) (ray.checkedTimeOf p)
  else if ray.isUpright then
    let p : Vec := ⟨c.x, s.slope * (c.x - a.x) + a.y⟩
    kept (s.checkedTimeOf p) (ray.checkedTimeOf p)
  else if (s.slope - ray.slope).abs < tolerance then none
  else
    let x := (s.slope * a.x - a.y - ray.slope * c.x + c.y) / (s.slope - ray.slope)
    let p : Vec := ⟨x, s.slope * (x - a.x) + a.y⟩
    if sameSide p s.last a && sameSide p c ray.last then kept (s.timeOf p) (ray.timeOf p) else none

/-! ### Thickness -/

def rayAcross (c : Crossing) : Segment :=
  let n := c.segment.normal
  ⟨c.point.add (n.scale 1000), c.point.add (n.scale (-1000))⟩

/-- The thickness of an outline at a place; nothing if it is not met twice there. -/
def thicknessAt (path : List Segment) (x : Float) : Option Float := do
  let box ← boxOf? path
  let ray : Segment := ⟨⟨x - 0.1, box.bottom - 10⟩, ⟨x + 0.1, box.top + 10⟩⟩
  let crossings := (path.filterMap (crossing? · ray)).mergeSort fun a b => decide (a.point.y ≤ b.point.y)
  match crossings with
  | a :: b :: _ =>
    let distance (p q : Vec) : Float := (p.squaredDistance q).sqrt
    match crossing? b.segment (rayAcross a) with
    | none => some (a.point.y - b.point.y).abs
    | some c =>
      let first := distance a.point c.point
      match crossing? a.segment (rayAcross b) with
      | none => some first
      | some d => some ((first + distance b.point d.point) * 0.5)
  | _ => none

end GlyphRules.Outline
