import Mathlib.Data.List.Range
import GlyphRules.Build.Tables
import GlyphRules.Proofs.Book.Update

/-! Builders and their places.

The builders of a routine stand behind those that were there, its own last (`buildRoutine_built`).
So those of a table are a run of new ones, and a routine that has one of them was built for the
table (`Raised`). Finishing gives them their places in that order (`finishBuilders_on`). -/
namespace GlyphRules.Build

open Step List Book

variable {α : Type} {ids : List BuilderId}

variable {i : RoutineId} {w w' : Workshop}

/-! ### What building a routine leaves alone -/

/-- Builders are added behind those that are there; besides that only the variation store changes. -/
structure Extends (s t : Workshop) : Prop where
  book : t.book = s.book
  ofRoutine : t.ofRoutine = s.ofRoutine
  builders : s.builders.toList <+: t.builders.toList

instance : Std.Refl Extends := ⟨fun _ => ⟨rfl, rfl, prefix_rfl⟩⟩

instance : Trans Extends Extends Extends :=
  ⟨fun h k => ⟨k.book.trans h.book, k.ofRoutine.trans h.ofRoutine, h.builders.trans k.builders⟩⟩

section Keeping

@[grind ←]
lemma keeps_addBuilder (b) : Keeps Extends (Work.addBuilder b) := fun s => by
  refine ⟨rfl, rfl, ?_⟩
  show s.builders.toList <+: (s.builders.push b).toList
  rw [Array.toList_push]
  exact prefix_append _ _

@[grind ←]
lemma keeps_builderOf (i) : Keeps Extends (Work.builderOf i) := by
  unfold Work.builderOf
  grind

@[grind ←]
lemma keeps_storeScalar (v) : Keeps Extends (storeScalar v) := by
  refine .bind .get fun w => ?_
  split
  · exact .throw _
  · refine .bind (.ofExcept _) fun x => .bind (.modify fun w => ⟨rfl, rfl, prefix_rfl⟩) fun _ => ?_
    exact .bind (.ofExcept _) fun _ => .pure _

@[grind ←]
lemma keeps_makeValue (v) : Keeps Extends (makeValue v) := by
  unfold makeValue
  grind

@[grind ←]
lemma keeps_makeCoordinate (s) : Keeps Extends (makeCoordinate s) := by
  unfold makeCoordinate
  grind

@[grind ←]
lemma keeps_makeAnchor (p) : Keeps Extends (makeAnchor p) := by
  unfold makeAnchor
  grind

@[grind ←]
lemma keeps_calledBuilders (calls) : Keeps Extends (calledBuilders calls) := by
  unfold calledBuilders
  grind

@[grind ←]
lemma keeps_asPositioning (r) : Keeps Extends (asPositioning r) := by
  unfold asPositioning
  grind

@[grind ←]
lemma keeps_asAttachment (r) : Keeps Extends (asAttachment r) := by
  unfold asAttachment
  grind

@[grind ←]
lemma keeps_asSubstitution (r) : Keeps Extends (asSubstitution r) := by
  unfold asSubstitution
  grind

@[grind ←]
lemma keeps_needed (x : Option α) : Keeps Extends (needed x) := by
  unfold needed
  grind

@[grind ←]
lemma keeps_firstOf (l : List α) : Keeps Extends (firstOf l) := by
  unfold firstOf
  grind

/-! ### Positioning -/

@[grind ←]
lemma keeps_placeContents (rules) : Keeps Extends (placeContents rules) := by
  unfold placeContents
  grind

@[grind ←]
lemma keeps_pairContents (rules) : Keeps Extends (pairContents rules) := by
  refine .bind (.foldlM _ _ fun m r => ?_) fun _ => .pure _
  grind

@[grind ←]
lemma keeps_cursiveContents (rules) : Keeps Extends (cursiveContents rules) := by
  refine .bind (.foldlM _ _ fun done r => .bind (keeps_asAttachment r) fun a => ?_) fun _ => .pure _
  grind

@[grind ←]
lemma keeps_markContents (toMark) (rules) : Keeps Extends (markContents toMark rules) := by
  refine .bind (.foldlM _ _ fun m r => ?_) fun _ => .pure _
  grind

@[grind ←]
lemma keeps_posChainRule (r) : Keeps Extends (posChainRule r) := by
  unfold posChainRule
  grind

lemma keeps_posContents (type) (rules) : Keeps Extends (posContents type rules) := by
  unfold posContents
  grind

/-! ### Substitution -/

@[grind ←]
lemma keeps_singleContents (rules) : Keeps Extends (singleContents rules) := by
  refine .bind (.foldlM _ _ fun m r => ?_) fun _ => .pure _
  grind

@[grind ←]
lemma keeps_multipleContents (rules) : Keeps Extends (multipleContents rules) := by
  refine .bind (.foldlM _ _ fun m r => ?_) fun _ => .pure _
  grind

@[grind ←]
lemma keeps_ligatureContents (rules) : Keeps Extends (ligatureContents rules) := by
  refine .bind (.foldlM _ _ fun l r => ?_) fun _ => .pure _
  grind

@[grind ←]
lemma keeps_subChainRule (r) : Keeps Extends (subChainRule r) := by
  unfold subChainRule
  grind

@[grind ←]
lemma keeps_reverseRule (r) : Keeps Extends (reverseRule r) := by
  refine .bind (keeps_asSubstitution r) fun s => .bind (keeps_needed _) fun _ => ?_
  grind

lemma keeps_subContents (type) (rules) : Keeps Extends (subContents type rules) := by
  unfold subContents
  grind

end Keeping

/-! ### Building a routine -/

/-- What building a routine does: it may change the flags of the routine, and its builders stand behind the
others, its own last. -/
structure Built (i : RoutineId) (w w' : Workshop) (ids : List BuilderId) : Prop where
  book : ∃ flags, w'.book = w.book.alterRoutine i fun r => { r with flags }
  builders : w.builders.toList <+: w'.builders.toList
  size : w.builders.size < w'.builders.size
  ofRoutine : w'.ofRoutine = w.ofRoutine.filter (·.1 != i) ++ [(i, w'.builders.size - 1)]
  ids : ids = List.range' w.builders.size (w'.builders.size - w.builders.size)

lemma drop_range (k n) : (List.range n).drop k = List.range' k (n - k) := by
  rw [range_eq_range', drop_range', Nat.zero_add, Nat.mul_one]

/-- However the contents come about, they go to the own builder of the routine. -/
def ownBuilder (i : RoutineId) (start : Nat) (flags : Flags) (x : Work Contents) : Work (List BuilderId) := do
  let contents ← x
  let id ← Work.addBuilder { contents, flags }
  modify fun w => { w with ofRoutine := (w.ofRoutine.filter (·.1 != i)) ++ [(i, id)] }
  return (List.range (id + 1)).drop start

lemma ownBuilder_built {x : Work Contents} (hx : Keeps Extends x)
    (h : (ownBuilder i w.builders.size flags x).on
      { w with book := w.book.alterRoutine i fun r => { r with flags } } = (.ok ids, w')) : Built i w w' ids := by
  obtain ⟨contents, t, hcontents, h⟩ := on_bind_eq_ok h
  have hextends := hx.of_on hcontents
  have hsize : w.builders.size ≤ t.builders.size := by simpa using hextends.builders.length_le
  have hpush : (t.builders.push { contents, flags }).size = t.builders.size + 1 := Array.size_push _
  cases h
  constructor
  case book => exact ⟨flags, hextends.book⟩
  case builders =>
    rw [Array.toList_push]
    exact hextends.builders.trans (prefix_append _ _)
  case size =>
    rw [hpush]
    exact Nat.lt_succ_of_le hsize
  case ofRoutine =>
    rw [hpush, hextends.ofRoutine]
    rfl
  case ids =>
    rw [hpush, drop_range]

lemma buildRoutine_inv (h : (buildRoutine i).on w = (.ok ids, w')) : ∃ type flags stage,
    commonType w.book (w.book.rulesOf i) = .ok type ∧ w.book.rulesOf i ≠ [] ∧
      (∀ r ∈ w.book.rulesOf i, r.flags = flags) ∧
      (w.book.alterRoutine i fun r => { r with flags }).routineStage i = .ok stage ∧
      (if stage == some .pos then ownBuilder i w.builders.size flags (posContents type (w.book.rulesOf i))
        else ownBuilder i w.builders.size flags (subContents type (w.book.rulesOf i))).on
        { w with book := w.book.alterRoutine i fun r => { r with flags } } = (.ok ids, w') := by
  rw [buildRoutine, on_get_bind] at h
  obtain ⟨type, htype, h⟩ := on_ofExcept_bind h
  cases hrules : w.book.rulesOf i with
  | nil =>
    simp only [hrules] at h
    cases h
  | cons first rest =>
    rw [hrules] at htype
    simp only [hrules] at h
    split at h
    · cases h
    · next halike =>
      have alike : ∀ r ∈ first :: rest, r.flags = first.flags := by simpa using halike
      rw [on_bind_ok (x := Work.onBook _) rfl, on_get_bind, on_get_bind] at h
      obtain ⟨stage, hstage, h⟩ := on_ofExcept_bind h
      exact ⟨type, first.flags, stage, htype, cons_ne_nil _ _, alike, hstage, h⟩

lemma buildRoutine_built (h : (buildRoutine i).on w = (.ok ids, w')) : Built i w w' ids := by
  obtain ⟨type, flags, stage, -, -, -, -, h⟩ := buildRoutine_inv h
  split at h
  · exact ownBuilder_built (keeps_posContents _ _) h
  · exact ownBuilder_built (keeps_subContents _ _) h

namespace Built

lemma getLast? (h : Built i w w' ids) : ids.getLast? = some (w'.builders.size - 1) := by
  obtain ⟨n, hn⟩ := Nat.exists_eq_add_of_lt h.size
  have hcount : w'.builders.size - w.builders.size = n + 1 := by omega
  have hlast : w.builders.size + 1 * n = w'.builders.size - 1 := by omega
  rw [h.ids, hcount, List.range'_concat, List.getLast?_concat, hlast]

lemma rulesOf (h : Built i w w' ids) (j) : w'.book.rulesOf j = w.book.rulesOf j := by
  obtain ⟨flags, hbook⟩ := h.book
  have content (k) : (w'.book.routine k).content = (w.book.routine k).content := by
    rw [hbook]
    exact routine_alterRoutine_eq w.book i (fun r => by rfl) k
  have size : w'.book.routines.size = w.book.routines.size := by rw [hbook, size_alterRoutine]
  have rule : w'.book.rule = w.book.rule := by rw [hbook]; rfl
  unfold Book.rulesOf
  rw [ruleIds_of_content size content, rule]

end Built

/-! ### Building all routines -/

def MadeFor (b : Book) (i : RoutineId) (builder : Option Builder) : Prop :=
  ∃ w w' ids id, (buildRoutine i).on w = (.ok ids, w') ∧ w.book.rulesOf i = b.rulesOf i ∧ ids.getLast? = some id ∧
    w'.builders[id]? = builder

/-- Routines have been built from a place on: their builders stand there one after the other, and what has
one of these as its own was built. -/
structure Raised (b : Book) (start : Nat) (w : Workshop) (ids : List BuilderId) : Prop where
  rules : ∀ i, w.book.rulesOf i = b.rulesOf i
  behind : start ≤ w.builders.size
  ids : ids = List.range' start (w.builders.size - start)
  known : ∀ x ∈ w.ofRoutine, x.2 < w.builders.size
  made : ∀ x ∈ w.ofRoutine, start ≤ x.2 → MadeFor b x.1 w.builders[x.2]?

namespace Raised
variable {b : Book} {start : Nat} {more : List BuilderId}

lemma step (h : Raised b start w ids) (hrun : (buildRoutine i).on w = (.ok more, w')) :
    Raised b start w' (ids ++ more) := by
  have built := buildRoutine_built hrun
  have hsize := built.size
  have hstart := h.behind
  constructor
  case rules => exact fun j => (built.rulesOf j).trans (h.rules j)
  case behind => omega
  case ids =>
    have hfirst : w.builders.size = start + 1 * (w.builders.size - start) := by omega
    have hall : w'.builders.size - start = (w.builders.size - start) + (w'.builders.size - w.builders.size) := by omega
    rw [h.ids, built.ids, hall, ← List.range'_append, ← hfirst]
  case known =>
    intro x hx
    rw [built.ofRoutine, mem_append] at hx
    rcases hx with hx | hx
    · exact Nat.lt_trans (h.known x (mem_filter.1 hx).1) hsize
    · rw [mem_singleton.1 hx]
      show w'.builders.size - 1 < w'.builders.size
      omega
  case made =>
    intro x hx hfrom
    rw [built.ofRoutine, mem_append] at hx
    rcases hx with hx | hx
    · have hx := (mem_filter.1 hx).1
      obtain ⟨new, hnew⟩ := built.builders
      rw [← Array.getElem?_toList, ← hnew, List.getElem?_append_left (by simpa using h.known x hx), Array.getElem?_toList]
      exact h.made x hx hfrom
    · rw [mem_singleton.1 hx]
      exact ⟨w, w', more, _, hrun, h.rules i, built.getLast?, rfl⟩

lemma run (h : Raised b start w ids) {routines : List RoutineId} {idss}
    (hrun : (routines.mapM buildRoutine).on w = (.ok idss, w')) : Raised b start w' (ids ++ idss.flatten) := by
  induction routines generalizing w ids idss with
  | nil =>
    cases hrun
    simpa using h
  | cons i routines ih =>
    obtain ⟨more, u, rest, hi, hrest, rfl⟩ := on_mapM_cons hrun
    have := ih (h.step hi) hrest
    rwa [append_assoc] at this

end Raised

/-! ### Finishing -/

structure Placed (glyphs : List String) (start first : Nat) (w w' : Workshop) (lookups : List (Option Finished)) :
    Prop where
  book : w'.book = w.book
  ofRoutine : w'.ofRoutine = w.ofRoutine
  size : w'.builders.size = w.builders.size
  before : ∀ k < start, w'.builders[k]? = w.builders[k]?
  placed : ∀ n < lookups.length, ∃ builder places l, w.builders[start + n]? = some builder ∧
    w'.builders[start + n]? = some { builder with index := some (first + n) } ∧ lookups[n]? = some l ∧
    Builder.finish glyphs places { builder with index := some (first + n) } = .ok l

lemma finishBuilders_on {start first n} {lookups}
    (hsize : start + n ≤ w.builders.size)
    (h : (((List.range' start n).zipIdx first).mapM fun x => finishBuilder glyphs x.2 x.1).on w = (.ok lookups, w')) :
    lookups.length = n ∧ Placed glyphs start first w w' lookups := by
  induction n generalizing start first w lookups with
  | zero =>
    cases h
    refine ⟨rfl, rfl, rfl, rfl, fun _ _ => rfl, fun n hn => ?_⟩
    cases hn
  | succ n ih =>
    rw [List.range'_succ, zipIdx_cons, mapM_cons] at h
    obtain ⟨l, u, hl, h⟩ := on_bind_eq_ok h
    obtain ⟨rest, v, hrest, h⟩ := on_bind_eq_ok h
    cases h
    have hstart : start < w.builders.size := by omega
    rw [finishBuilder, on_bind_ok (on_modify _ w), on_get_bind, on_ofExcept] at hl
    obtain ⟨hfinish, rfl⟩ := Prod.mk.inj hl
    have found : (w.builders.modify start fun b => { b with index := some first }).getD start default =
        { w.builders[start] with index := some first } := by
      simp [hstart, Array.getElem_modify]
    rw [found] at hfinish
    have hu : start + 1 + n ≤ (w.builders.modify start fun b => { b with index := some first }).size := by
      rw [Array.size_modify]
      omega
    obtain ⟨hlength, hplaced⟩ := ih hu hrest
    have before (k) (hk : k ≠ start) :
        (w.builders.modify start fun b => { b with index := some first })[k]? = w.builders[k]? := by
      rw [Array.getElem?_modify, if_neg (Ne.symm hk)]
    refine ⟨by rw [length_cons, hlength], hplaced.book, hplaced.ofRoutine, ?_, fun k hk => ?_, fun m hm => ?_⟩
    · rw [hplaced.size]
      exact Array.size_modify
    · rw [hplaced.before k (by omega)]
      exact before k (Nat.ne_of_lt hk)
    · cases m with
      | zero =>
        refine ⟨w.builders[start], _, l, ?_, ?_, rfl, hfinish⟩
        · exact Array.getElem?_eq_getElem hstart
        · rw [Nat.add_zero, hplaced.before start (Nat.lt_succ_self _), Array.getElem?_modify, if_pos rfl,
            Array.getElem?_eq_getElem hstart]
          rfl
      | succ m =>
        obtain ⟨builder, places, l', hbuilder, hbuilder', hl', hfinish'⟩ :=
          hplaced.placed m (Nat.lt_of_succ_lt_succ hm)
        have hfrom : start + 1 + m = start + (m + 1) := by omega
        have hplace : first + 1 + m = first + (m + 1) := by omega
        rw [hfrom] at hbuilder hbuilder'
        rw [hplace] at hbuilder' hfinish'
        refine ⟨builder, places, l', ?_, hbuilder', hl', hfinish'⟩
        rw [← before (start + (m + 1)) (by omega)]
        exact hbuilder

end GlyphRules.Build
