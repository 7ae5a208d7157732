import GlyphRules.Scalar.Model

/-! The variation store.

Varying scalars are stored as rows of deltas, one column for each region. Rows with the same regions
stand in one block; a scalar is known by the numbers of its block and row. `Store.optimise` drops
rows of zeroes, lays the rows out in blocks that take the fewest bytes, and says where each has
gone. -/
namespace GlyphRules

/-- A block of rows over some regions. -/
structure Block where
  regions : List Nat
  rows : List (List Int)
deriving Inhabited

structure Store where
  /-- The axes of the design space. -/
  axes : List String
  regions : List Support := []
  blocks : List Block := []

abbrev RowIndex := Nat × Nat

def noVariation : RowIndex := (0xFFFF, 0xFFFF)

namespace Store

def sameSupport (a b : Support) : Bool :=
  a.length == b.length && a.all fun (tag, t) =>
    match VariationModel.tent? b tag with
    | none => false
    | some u => t.lower == u.lower && t.peak == u.peak && t.upper == u.upper

def regionIndex (s : Store) (r : Support) : Nat × Store :=
  match s.regions.findIdx? (sameSupport r) with
  | some i => (i, s)
  | none => (s.regions.length, { s with regions := s.regions ++ [r] })

def regionIndices (s : Store) (rs : List Support) : List Nat × Store :=
  rs.foldl (fun (is, s) r =>
    let (i, s) := s.regionIndex r
    (is ++ [i], s)) ([], s)

def addRow (s : Store) (regions : List Nat) (row : List Int) : RowIndex × Store :=
  match s.blocks.findIdx? (·.regions == regions) with
  | none => ((s.blocks.length, 0), { s with blocks := s.blocks ++ [⟨regions, [row]⟩] })
  | some i =>
    let block := s.blocks.getD i default
    match block.rows.idxOf? row with
    | some j => ((i, j), s)
    | none =>
      ((i, block.rows.length),
        { s with blocks := s.blocks.set i { block with rows := block.rows ++ [row] } })

def add (s : Store) (v : VariableScalar) : Except Fault (Except Fault Int × RowIndex × Store) := do
  let (deltas, supports) ← v.deltasAndSupports
  let rounded := deltas.map Number.round
  let supports := match supports with
    | [] :: rest => rest
    | l => l
  let row := if rounded.length == supports.length + 1 then rounded.drop 1 else rounded
  let (regions, s) := s.regionIndices supports
  let (index, s) := s.addRow regions row
  return (v.atDefault.map Number.truncate, index, s)

/-! ### Layout -/

/-- How many bytes each column of a row needs, four bits for each column. -/
def columnBits (row : List Int) : List Nat :=
  let short (v : Int) : Bool := -32768 ≤ v && v ≤ 32767
  if row.all short then
    row.map fun v => (if v == 0 then 0 else 1) + (if -128 ≤ v && v ≤ 127 then 0 else 2)
  else row.map fun v => (if v == 0 then 0 else 3) + (if short v then 0 else 12)

/-- Rows that are laid out alike. -/
structure Encoding where
  bits : List Nat
  rows : List (List Int)

def bitCount (n : Nat) : Nat := n % 2 + n / 2 % 2 + n / 4 % 2 + n / 8 % 2

def width (bits : List Nat) : Nat := bits.foldl (fun n b => n + bitCount b) 0

def overhead (bits : List Nat) : Nat := 10 + 2 * (bits.filter (· != 0)).length

def merged (a b : List Nat) : List Nat := List.zipWith (· ||| ·) a b

namespace Encoding

/-- Narrow encodings first, then by their columns from the last. -/
def le (a b : Encoding) : Bool :=
  ((Ord.compare (width a.bits) (width b.bits)).then
    (VariationModel.compareLists Ord.compare a.bits.reverse b.bits.reverse)) != .gt

/-- The most bytes that can be saved by giving an encoding up. -/
def worth (e : Encoding) : Nat := overhead e.bits - e.rows.length

/-- Encodings that save little first, then by their columns from the last. -/
def leByWorth (a b : Encoding) : Bool :=
  ((Ord.compare a.worth b.worth).then
    (VariationModel.compareLists Ord.compare a.bits.reverse b.bits.reverse)) != .gt

/-- The bytes that are saved when two encodings become one. -/
def gain (a b : Encoding) : Int :=
  let both := merged a.bits b.bits
  (overhead a.bits : Int) + overhead b.bits - overhead both -
    ((width both : Int) - width a.bits) * a.rows.length -
    ((width both : Int) - width b.bits) * b.rows.length

def union (a b : List (List Int)) : List (List Int) := a ++ b.filter fun r => !a.contains r

end Encoding

def addEncoded (es : List Encoding) (row : List Int) : List Encoding :=
  let bits := columnBits row
  if es.any (·.bits == bits) then
    es.map fun e => if e.bits == bits then { e with rows := Encoding.union e.rows [row] } else e
  else es ++ [⟨bits, [row]⟩]

/-- Two encodings that may be merged: what is gained, and their places. -/
structure Merger where
  gain : Int
  first : Nat
  second : Nat

/-- The largest gain comes first, then the smaller places. -/
def Merger.before (a b : Merger) : Bool :=
  ((Ord.compare b.gain a.gain).then ((Ord.compare a.first b.first).then (Ord.compare a.second b.second))) == .lt

def bestMerger (queue : List Merger) : Option Merger :=
  queue.foldl (fun best m =>
    match best with
    | none => some m
    | some b => if m.before b then some m else some b) none

def mergeEncodings : Nat → List (Option Encoding) → List Merger → List (Option Encoding)
  | 0, todo, _ => todo
  | fuel + 1, todo, queue =>
    match bestMerger queue with
    | none => todo
    | some m =>
      let queue := queue.filter fun q => !(q.first == m.first && q.second == m.second)
      match todo.getD m.first none, todo.getD m.second none with
      | some a, some b =>
        let todo := (todo.set m.first none).set m.second none
        let bits := merged a.bits b.bits
        let start : Encoding := ⟨bits, Encoding.union a.rows b.rows⟩
        let (todo, new, queue) := todo.zipIdx.foldl (fun (done, new, queue) (e, k) =>
          match e with
          | none => (done ++ [none], new, queue)
          | some e =>
            if e.bits == bits then
              (done ++ [none], { new with rows := Encoding.union new.rows e.rows }, queue)
            else
              let g := new.gain e
              (done ++ [some e], new, if g > 0 then queue ++ [⟨g, k, todo.length⟩] else queue))
          ([], start, queue)
        mergeEncodings fuel (todo ++ [some new]) queue
      | _, _ => mergeEncodings fuel todo queue

def mergers (es : List Encoding) : List Merger :=
  es.zipIdx.flatMap fun (a, i) => (es.zipIdx.drop (i + 1)).filterMap fun (b, j) =>
    if a.gain b > 0 then some ⟨a.gain b, i, j⟩ else none

def fullRow (n : Nat) (regions : List Nat) (row : List Int) : List Int :=
  (regions.zip row).foldl (fun full (i, v) => full.set i (full.getD i 0 + v)) (List.replicate n 0)

/-- Bytes that a number needs; zero needs none. -/
def byteLength (v : Int) : Nat :=
  if v == 0 then 0 else if -128 ≤ v && v ≤ 127 then 1 else if -32768 ≤ v && v ≤ 32767 then 2 else 3

/-- A block of full rows without its empty columns, wide columns first. -/
def packBlock (n : Nat) (rows : List (List Int)) : Block :=
  let lengths := (List.range n).map fun c =>
    rows.foldl (fun m r => Nat.max m (byteLength (r.getD c 0))) 0
  let columns := ((lengths.zipIdx.filter (·.1 > 2)) ++ (lengths.zipIdx.filter (·.1 == 2)) ++
    (lengths.zipIdx.filter (·.1 == 1))).map (·.2)
  ⟨columns, rows.map fun r => columns.map fun c => r.getD c 0⟩

def pruneRegions (s : Store) : Store :=
  let used := (List.range s.regions.length).filter fun i => s.blocks.any (·.regions.contains i)
  { s with
    regions := used.map fun i => s.regions.getD i []
    blocks := s.blocks.map fun b => { b with regions := b.regions.map (used.idxOf ·) } }

def optimise (s : Store) : Store × (RowIndex → RowIndex) :=
  let n := s.regions.length
  let rows : List (RowIndex × List Int) := s.blocks.zipIdx.flatMap fun (b, i) =>
    b.rows.zipIdx.map fun (r, j) => ((i, j), fullRow n b.regions r)
  let kept := rows.filter fun (_, r) => r.any (· != 0)
  let todo := (kept.foldl (fun es (_, r) => addEncoded es r) []).mergeSort Encoding.leByWorth
  let done := (mergeEncodings ((todo.length + 1) * (todo.length + 1)) (todo.map some) (mergers todo)).filterMap id
  let groups := (done.mergeSort Encoding.le).map fun e =>
    e.rows.mergeSort fun a b => VariationModel.compareLists Ord.compare a b != .gt
  let place (row : List Int) : Option RowIndex :=
    groups.zipIdx.findSome? fun (g, i) => (g.idxOf? row).map fun j => (i, j)
  let new := fun index =>
    match rows.find? (·.1 == index) with
    | none => index
    | some (_, row) => if row.any (· != 0) then (place row).getD noVariation else noVariation
  (pruneRegions { s with blocks := groups.map (packBlock n) }, new)

end Store
end GlyphRules
