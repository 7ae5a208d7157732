import Mathlib.Data.List.Induction
import Mathlib.Data.List.Nodup
import Mathlib.Data.List.Sublists
import Mathlib.Logic.Relation
import GlyphRules.Book.Scripts
import GlyphRules.Proofs.Book.Update

/-! Called routines before their callers.

`Book.orderByCalls` fetches what a routine calls and has no place yet, but not what the fetched
routine calls. So the order is right exactly when every routine that is fetched calls nothing that
has no place by then (`orderByCalls_callsFirst_iff`). -/
namespace GlyphRules

open List

/-! ### One before another -/

def Before {α : Type} (l : List α) (a b : α) : Prop := [a, b].Sublist l

instance {α : Type} [DecidableEq α] (l : List α) (a b : α) : Decidable (Before l a b) :=
  inferInstanceAs (Decidable ([a, b].Sublist l))

namespace Before
variable {α : Type} {l l' front rest : List α} {a b : α}

lemma mono (h : Before l a b) (hl : l.Sublist l') : Before l' a b := h.trans hl

lemma concat (ha : a ∈ l) (b) : Before (l ++ [b]) a b :=
  (singleton_sublist.2 ha).append (Sublist.refl [b])

lemma mem_front (h : Before (front ++ b :: rest) a b) (hnodup : (front ++ b :: rest).Nodup) : a ∈ front := by
  obtain ⟨-, hrest, hfront⟩ := nodup_append.1 hnodup
  have hb : b ∉ rest := (nodup_cons.1 hrest).1
  obtain ⟨l₁, l₂, hsplit, h₁, h₂⟩ := sublist_append_iff.1 h
  cases l₁ with
  | nil =>
    -- Then both stand behind the front part, where `b` has only one place.
    obtain rfl := hsplit
    exact absurd (Sublist.subset h₂.tail (by simp)) hb
  | cons x l₁ =>
    obtain ⟨rfl, -⟩ := List.cons.inj hsplit
    exact h₁.subset (.head _)

end Before

namespace Book

/-- The routines that a routine calls. -/
def callees (b : Book) (i : RoutineId) : List RoutineId := (b.routineDependencies i).filterMap id

lemma mem_callees {b : Book} {i k} : k ∈ b.callees i ↔ some k ∈ b.routineDependencies i := by
  simp [callees]

/-- No routine calls itself, directly or through others. -/
def Acyclic (b : Book) : Prop := ∀ i, ¬Relation.TransGen (fun i k => k ∈ b.callees i) i i

/-- Every routine stands behind all that it calls. -/
def CallsFirst (b : Book) (order : List RoutineId) : Prop := ∀ i ∈ order, ∀ k ∈ b.callees i, Before order k i

lemma Acyclic.not_mem {b : Book} (h : b.Acyclic) (i) : i ∉ b.callees i :=
  fun hi => h i (.single hi)

/-! ### Giving places -/

section Place
variable {placed ds : List RoutineId} {x d : RoutineId}

lemma prefix_place (placed) (d) : placed <+: place placed d := by
  unfold place
  split
  · exact prefix_refl _
  · exact prefix_append _ _

@[simp] lemma mem_place : x ∈ place placed d ↔ x ∈ placed ∨ x = d := mem_ifNew

lemma place_of_not_mem (h : d ∉ placed) : place placed d = placed ++ [d] := by
  rw [place, if_neg (by simpa using h)]

lemma nodup_place (h : placed.Nodup) (d) : (place placed d).Nodup := by
  by_cases hd : d ∈ placed
  · unfold place
    rwa [if_pos (by simpa using hd)]
  · rw [place_of_not_mem hd, nodup_append_comm]
    exact nodup_cons.2 ⟨hd, h⟩

lemma prefix_foldl_place (ds placed : List RoutineId) : placed <+: ds.foldl place placed := by
  induction ds generalizing placed with
  | nil => exact prefix_refl _
  | cons d ds ih => exact (prefix_place placed d).trans (ih _)

@[simp] lemma mem_foldl_place : x ∈ ds.foldl place placed ↔ x ∈ placed ∨ x ∈ ds := by
  induction ds generalizing placed with
  | nil => simp
  | cons d ds ih => rw [foldl_cons, ih, mem_place, mem_cons, or_assoc]

lemma nodup_foldl_place (h : placed.Nodup) (ds : List RoutineId) : (ds.foldl place placed).Nodup := by
  induction ds generalizing placed with
  | nil => exact h
  | cons d ds ih => exact ih (nodup_place h d)

variable {calls : RoutineId → List RoutineId} {i : RoutineId}

lemma prefix_placeWithCalls (calls) (placed) (i) :
    placed <+: placeWithCalls calls placed i := by
  unfold placeWithCalls
  split
  · exact prefix_refl _
  · exact (prefix_foldl_place _ _).trans (prefix_append _ _)

lemma placeWithCalls_of_not_mem (h : i ∉ placed) :
    placeWithCalls calls placed i = (calls i).foldl place placed ++ [i] := by
  rw [placeWithCalls, if_neg (by simpa using h)]

lemma placeWithCalls_of_mem (h : i ∈ placed) : placeWithCalls calls placed i = placed := by
  rw [placeWithCalls, if_pos (by simpa using h)]

end Place

/-! ### What has a place -/

/-- The routines that have a place once some have been gone through. -/
def placed (b : Book) (before : List RoutineId) : List RoutineId :=
  before.foldl (placeWithCalls b.callees) []

/-- A routine that is fetched: one that calls it comes to its place while it has none itself. `standing`
is what has a place by then. -/
def Fetches (b : Book) (standing : List RoutineId) (d : RoutineId) : Prop :=
  ∃ before r after xs ys, b.order = before ++ r :: after ∧ r ∉ b.placed before ∧
    b.callees r = xs ++ d :: ys ∧ standing = xs.foldl place (b.placed before) ∧ d ∉ standing

section Placed
variable {b : Book} {before after : List RoutineId} {r : RoutineId}

lemma placed_concat (b : Book) (before) (r) :
    b.placed (before ++ [r]) = placeWithCalls b.callees (b.placed before) r := by
  simp [placed]

lemma prefix_placed (b : Book) (before after) : b.placed before <+: b.placed (before ++ after) := by
  induction after using List.reverseRecOn with
  | nil => simp
  | append_singleton after r ih =>
    rw [← append_assoc, placed_concat]
    exact ih.trans (prefix_placeWithCalls _ _ _)

lemma nodup_placed (h : b.Acyclic) (before) : (b.placed before).Nodup := by
  induction before using List.reverseRecOn with
  | nil => exact nodup_nil
  | append_singleton before r ih =>
    rw [placed_concat]
    by_cases hr : r ∈ b.placed before
    · rwa [placeWithCalls_of_mem hr]
    · rw [placeWithCalls_of_not_mem hr, nodup_append_comm]
      refine nodup_cons.2 ⟨?_, nodup_foldl_place ih _⟩
      simp [hr, h.not_mem r]

lemma mem_placed (hcalls : ∀ r ∈ before, ∀ k ∈ b.callees r, k ∈ b.order) (hbefore : before ⊆ b.order)
    (hx : x ∈ b.placed before) : x ∈ b.order := by
  induction before using List.reverseRecOn with
  | nil => cases hx
  | append_singleton before r ih =>
    have hr : r ∈ b.order := hbefore (by simp)
    have old h : x ∈ b.order :=
      ih (fun r hr => hcalls r (by simp [hr])) (fun r hr => hbefore (by simp [hr])) h
    rw [placed_concat] at hx
    by_cases hplaced : r ∈ b.placed before
    · rw [placeWithCalls_of_mem hplaced] at hx
      exact old hx
    · rw [placeWithCalls_of_not_mem hplaced] at hx
      obtain (hx | hx) | rfl : (x ∈ b.placed before ∨ x ∈ b.callees r) ∨ x = r := by simpa using hx
      · exact old hx
      · exact hcalls r (by simp) x hx
      · exact hr

lemma subset_placed (b : Book) (before) : before ⊆ b.placed before := by
  induction before using List.reverseRecOn with
  | nil => simp
  | append_singleton before r ih =>
    intro x hx
    rw [placed_concat]
    rcases mem_append.1 hx with hx | hx
    · exact (prefix_placeWithCalls _ _ _).subset (ih hx)
    · obtain rfl : x = r := by simpa using hx
      by_cases hplaced : x ∈ b.placed before
      · exact (prefix_placeWithCalls _ _ _).subset hplaced
      · rw [placeWithCalls_of_not_mem hplaced]
        simp

end Placed

/-! ### Right orders -/

section Right
variable {b : Book}

lemma callsFirst_step {before after} {r} (horder : b.order = before ++ r :: after)
    (hfetch : ∀ standing d, b.Fetches standing d → b.callees d ⊆ standing) (h : b.CallsFirst (b.placed before)) :
    b.CallsFirst (b.placed (before ++ [r])) := by
  rw [placed_concat]
  by_cases hr : r ∈ b.placed before
  · rwa [placeWithCalls_of_mem hr]
  · rw [placeWithCalls_of_not_mem hr]
    have fetched xs ys (hcalls : b.callees r = xs ++ ys) :
        b.CallsFirst (xs.foldl place (b.placed before)) := by
      induction xs using List.reverseRecOn generalizing ys with
      | nil => exact h
      | append_singleton xs d ih =>
        have old := ih (d :: ys) (by simpa using hcalls)
        rw [foldl_append, foldl_cons]
        by_cases hd : d ∈ xs.foldl place (b.placed before)
        · unfold place at hd ⊢
          rwa [if_pos (by simpa using hd)]
        · rw [place_of_not_mem hd]
          intro i hi k hk
          rcases mem_append.1 hi with hi | hi
          · exact (old i hi k hk).mono (sublist_append_left _ _)
          · obtain rfl : i = d := by simpa using hi
            refine .concat (hfetch _ i ⟨before, r, after, xs, ys, horder, hr, ?_, rfl, hd⟩ hk) i
            simpa using hcalls
    intro i hi k hk
    rcases mem_append.1 hi with hi | hi
    · exact (fetched (b.callees r) [] (by simp) i hi k hk).mono (sublist_append_left _ _)
    · obtain rfl : i = r := by simpa using hi
      exact .concat (by simp [hk]) i

lemma callsFirst_placed (hfetch : ∀ standing d, b.Fetches standing d → b.callees d ⊆ standing)
    {before after} (horder : b.order = before ++ after) : b.CallsFirst (b.placed before) := by
  induction before using List.reverseRecOn generalizing after with
  | nil => exact fun i hi => by cases hi
  | append_singleton before r ih =>
    have horder : b.order = before ++ r :: after := by simpa using horder
    exact callsFirst_step horder hfetch (ih horder)

section
variable {standing : List RoutineId} {d : RoutineId} (h : b.Fetches standing d)
include h

lemma Fetches.prefix_placed : standing ++ [d] <+: b.placed b.order := by
  obtain ⟨before, r, after, xs, ys, horder, hr, hcalls, rfl, hd⟩ := h
  have fetched : xs.foldl place (b.placed before) ++ [d] = (xs ++ [d]).foldl place (b.placed before) := by
    rw [foldl_append, foldl_cons, foldl_nil, place_of_not_mem hd]
  have all : (b.callees r).foldl place (b.placed before) =
      ys.foldl place ((xs ++ [d]).foldl place (b.placed before)) := by
    rw [← foldl_append, hcalls, append_assoc, singleton_append]
  have caller : b.placed (before ++ [r]) = (b.callees r).foldl place (b.placed before) ++ [r] := by
    rw [placed_concat, placeWithCalls_of_not_mem hr]
  have whole : b.order = (before ++ [r]) ++ after := by simpa using horder
  rw [fetched, whole]
  refine IsPrefix.trans ?_ (Book.prefix_placed b _ _)
  rw [caller, all]
  exact (prefix_foldl_place _ _).trans (prefix_append _ _)

lemma Fetches.subset_of_callsFirst (hacyclic : b.Acyclic) (hfirst : b.CallsFirst (b.placed b.order)) :
    b.callees d ⊆ standing := by
  obtain ⟨rest, hrest⟩ := h.prefix_placed
  have hnodup := nodup_placed hacyclic b.order
  rw [← hrest, append_assoc] at hnodup hfirst
  intro k hk
  exact (hfirst d (by simp) k hk).mem_front hnodup

end

end Right

/-- The calls in force lead to routines in force. -/
def Settled (b : Book) : Prop := ∀ i ∈ b.order, ∀ d ∈ b.routineDependencies i, ∃ k ∈ b.order, d = some k

lemma order_orderByCalls {b : Book} (h : b.Settled) : b.orderByCalls.order = b.placed b.order := by
  have known (i) (hi : i ∈ b.order) : (b.routineDependencies i).map (·.getD b.routines.size) = b.callees i := by
    have hsome := h i hi
    unfold callees
    generalize b.routineDependencies i = ds at hsome
    induction ds with
    | nil => rfl
    | cons d ds ih =>
      obtain ⟨k, -, rfl⟩ := hsome d (.head _)
      simpa using ih fun d hd => hsome d (.tail _ hd)
  have step (standing) (i) (hi : i ∈ b.order) :
      placeWithCalls (fun i => (b.routineDependencies i).map (·.getD b.routines.size)) standing i =
        placeWithCalls b.callees standing i := by
    simp only [placeWithCalls, known i hi]
  rw [placed, ← foldl_ext _ _ [] step]
  exact (apply_ite Book.order _ _ _).trans (ite_self _)

end Book

/-- **The routines are put in an order with calls first exactly when** none is in force twice and every
routine that is fetched for its caller calls only what has a place by then. -/
theorem orderByCalls_callsFirst_iff {b : Book} (hsettled : b.Settled) (hacyclic : b.Acyclic) :
    (b.orderByCalls.order.Perm b.order ∧ b.CallsFirst b.orderByCalls.order) ↔
      b.order.Nodup ∧ ∀ standing d, b.Fetches standing d → b.callees d ⊆ standing := by
  rw [Book.order_orderByCalls hsettled]
  have hnodup := Book.nodup_placed hacyclic b.order
  constructor
  · rintro ⟨hperm, hfirst⟩
    exact ⟨hperm.nodup_iff.1 hnodup, fun standing d h => h.subset_of_callsFirst hacyclic hfirst⟩
  · rintro ⟨horder, hfetch⟩
    refine ⟨(List.perm_ext_iff_of_nodup hnodup horder).2 fun x => ⟨?_, ?_⟩, ?_⟩
    · refine Book.mem_placed (fun r hr k hk => ?_) (fun _ h => h)
      obtain ⟨k', hk', heq⟩ := hsettled r hr (some k) (Book.mem_callees.1 hk)
      exact Option.some.inj heq ▸ hk'
    · exact fun hx => Book.subset_placed b b.order hx
    · exact Book.callsFirst_placed hfetch (List.append_nil _).symm

section Sample

lemma Book.Acyclic.of_rank {b : Book} (rank : RoutineId → Nat)
    (h : ∀ i < b.routines.size, ∀ k ∈ b.callees i, rank k < rank i) : b.Acyclic := by
  have lower {i k} (hk : k ∈ b.callees i) : rank k < rank i := by
    refine h i (lt_of_ruleIds fun hnone => ?_) k hk
    rw [mem_callees, routineDependencies, rulesOf, hnone] at hk
    cases hk
  intro i hi
  have down {j} (hj : Relation.TransGen (fun i k => k ∈ b.callees i) i j) : rank j < rank i := by
    induction hj with
    | single hk => exact lower hk
    | tail _ hk ih => exact (lower hk).trans ih
  exact Nat.lt_irrefl _ (down hi)

def callOf (name : String) (i : RoutineId) : Rule :=
  Rule.ofBody (.chaining { input := some [["a"]], calls := [some [.ref ⟨some (some name), some i⟩]] })

/-- A chain, the chain that it calls, and the routine that this one calls. -/
def deepBook : Book :=
  { routines := #[{ name := some "outer", content := .rules [0] }, { name := some "middle", content := .rules [1] },
      { name := some "inner", content := .rules [2] }]
    rules := #[callOf "middle" 1, callOf "inner" 2,
      Rule.ofBody (.substitution { input := some [["a"]], replacement := some [["b"]] })]
    order := [0, 1, 2] }

lemma deepBook_acyclic : deepBook.Acyclic := .of_rank (2 - ·) (by decide)

/-- With the innermost routine in front, the middle one can be fetched. -/
def readyBook : Book := { deepBook with order := [2, 0, 1] }

theorem orderByCalls_callsFirst_ready : readyBook.Settled ∧ readyBook.Acyclic ∧
    readyBook.orderByCalls.order = [2, 1, 0] ∧
      ∀ standing d, readyBook.Fetches standing d → readyBook.callees d ⊆ standing := by
  have settled : readyBook.Settled := by unfold Book.Settled; decide
  have first : readyBook.CallsFirst readyBook.orderByCalls.order := by unfold Book.CallsFirst; decide
  exact ⟨settled, deepBook_acyclic, by decide,
    ((orderByCalls_callsFirst_iff settled deepBook_acyclic).1 ⟨by decide, first⟩).2⟩

/-- **Two calls deep the order can be wrong**: the middle routine is fetched, but not what it calls. -/
theorem orderByCalls_two_deep : deepBook.Settled ∧ deepBook.Acyclic ∧ deepBook.order.Nodup ∧
    deepBook.orderByCalls.order = [1, 0, 2] ∧ ¬deepBook.CallsFirst deepBook.orderByCalls.order := by
  refine ⟨by unfold Book.Settled; decide, deepBook_acyclic, by decide, by decide, ?_⟩
  unfold Book.CallsFirst
  decide

end Sample

end GlyphRules
