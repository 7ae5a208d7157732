import GlyphRules.Build.Routine

/-! The layout tables of a font.

A table lists lookups, the features that use them, and the features of each script and language.
`Work.tables` builds both tables of a book: it puts called routines first, splits routines by type
and language, and stores what varies. -/
namespace GlyphRules.Build

structure ScriptEntry where
  tag : String
  default : Option (List Nat) := none
  languages : List (String × List Nat) := []

structure Table where
  scripts : List ScriptEntry := []
  features : List (String × List Nat) := []
  lookups : List (Option Finished) := []

structure Tables where
  substitution : Table
  positioning : Table
  /-- The category of each glyph by number. -/
  categories : List (String × Nat)
  store : Option Store := none

/-- The names of the glyph categories, in the order of their numbers. -/
def categoryNames : List String := ["", "base", "ligature", "mark", "component"]

def buildCategories (b : Book) : Except Fault (List (String × Nat)) :=
  b.glyphClasses.mapM fun (g, c) =>
    match c.bind categoryNames.idxOf? with
    | some n => .ok (g, n)
    | none => .error .badValue

def finishBuilder (glyphs : List String) (place : Nat) (id : BuilderId) : Work (Option Finished) := do
  modify fun w => { w with builders := w.builders.modify id fun b => { b with index := some place } }
  let w ← get
  ofExcept ((w.builders.getD id default).finish glyphs fun i => (w.builders.getD i default).index)

def callsOfStage (b : Book) (stage : Stage) (m : FeatureMap) : Except Fault FeatureMap := do
  let parts ← m.mapM fun (k, calls) => do
    return (k, ← calls.filterM fun (_, l) => do return (← b.lookupStage l) == some stage)
  return parts.filter fun (_, calls) => !calls.isEmpty

def keyLe (a b : FeatureKey) : Bool :=
  (((Ord.compare a.language b.language).then (Ord.compare a.script b.script)).then
    (Ord.compare a.tag b.tag)) != .gt

def addFeatureEntry (t : Table) (tag : String) (lookups : List Nat) : Nat × Table :=
  match t.features.idxOf? (tag, lookups) with
  | some i => (i, t)
  | none => (t.features.length, { t with features := t.features ++ [(tag, lookups)] })

def scriptEntries (uses : List (FeatureKey × Nat)) : List ScriptEntry :=
  let scripts := Text.sort (Text.distinct (uses.map (·.1.script)))
  scripts.map fun s =>
    let own := uses.filter (·.1.script == s)
    let languages := Text.sort (Text.distinct (own.map (·.1.language)))
    let entries := languages.map fun l => (l, (own.filter (·.1.language == l)).map (·.2))
    { tag := s
      default := (entries.find? (·.1 == "dflt")).map (·.2)
      languages := entries.filter (·.1 != "dflt") }

namespace Work

def table (glyphs : List String) (stage : Stage) : Work Table := do
  let map ← onBook Act.arrangeByScripts
  let b := (← get).book
  let map ← ofExcept (callsOfStage b stage map)
  let routines ← ofExcept (b.order.filterM fun i => do return (← b.routineStage i) == some stage)
  let builders := (← routines.mapM buildRoutine).flatten
  let lookups ← builders.zipIdx.mapM fun (id, place) => finishBuilder glyphs place id
  let (t, uses) ← (map.mergeSort fun a b => keyLe a.1 b.1).foldlM (fun (t, uses) (key, calls) => do
    let places ← calls.mapM fun (_, l) => do
      match l with
      | .ref { routine := some i, .. } =>
        match builders.idxOf? (← builderOf i) with
        | some n => return n
        | none => throw .badValue
      | _ => throw .missingPart
    let (n, t) := addFeatureEntry t key.tag places
    return (t, uses ++ [(key, n)])) (({ lookups } : Table), [])
  return { t with scripts := scriptEntries uses }

def tables (glyphs : List String) (axes : List Axis) : Work Tables := do
  onBook Act.resolveAll
  onBook (modify Book.orderByCalls)
  onBook (Act.forRoutines Act.splitByType)
  if !axes.isEmpty then modify fun w => { w with store := some { axes := axes.map (·.tag) } }
  let categories ← ofExcept (buildCategories (← get).book)
  let substitution ← table glyphs .sub
  let positioning ← table glyphs .pos
  match (← get).store with
  | none => return { substitution, positioning, categories }
  | some store =>
    if store.blocks.isEmpty then return { substitution, positioning, categories }
    if categories.isEmpty then throw .notFound
    let (store, new) := store.optimise
    modify fun w => { w with builders := w.builders.map fun b => { b with contents := b.contents.renumber new } }
    return { substitution, positioning, categories, store := some store }

end Work
end GlyphRules.Build
