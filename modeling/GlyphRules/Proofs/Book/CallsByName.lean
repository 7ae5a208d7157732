import GlyphRules.Proofs.Book.Tidy

/-! Calls by name.

Whatever called a routine that is split calls it and its copies by the name that they have in
common. From then on all calls of the routine are by its name (`Split.named`), and splits of
other routines leave that as it is (`Split.named_of_ne`). Where a routine is called by its name
and stays whole, a split changes no call (`Split.calls_of_named`). -/
namespace GlyphRules

open List Book

def Lookup.ByName (name : Option String) (j : RoutineId) (l : Lookup) : Prop :=
  l.routine? = some j → l = .ref ⟨some name, some j⟩

structure Book.Named (b : Book) (j : RoutineId) : Prop where
  features : ∀ f ∈ b.features, ∀ l ∈ f.2, l.ByName (b.routine j).name j
  chains : ∀ id ∈ b.allRules, ∀ l ∈ (b.rule id).chained.entries, l.ByName (b.routine j).name j

/-! ### One call -/

section Calls
variable {name n : Option String} {i j : RoutineId} {all : List RoutineId} {ls : List Lookup}

lemma mem_callEach (h : l' ∈ callEach name i all l) :
    l' = l ∧ l.routine? ≠ some i ∨ ∃ k ∈ all, l' = .ref ⟨some name, some k⟩ := by
  unfold callEach at h
  split at h
  · obtain ⟨k, hk, rfl⟩ := mem_map.1 h
    exact .inr ⟨k, hk, rfl⟩
  · next hne => exact .inl ⟨mem_singleton.1 h, hne⟩

lemma byName_callEach (hl : l ∈ ls.flatMap (callEach name i all)) : l.ByName name i := by
  intro hi
  obtain ⟨l₀, -, hl⟩ := mem_flatMap.1 hl
  rcases mem_callEach hl with ⟨rfl, hne⟩ | ⟨k, -, rfl⟩
  · exact absurd hi hne
  · obtain rfl := Option.some.inj hi
    rfl

lemma byName_callEach_of_ne (hj : j ∉ all) (h : ∀ l ∈ ls, l.ByName n j) {l}
    (hl : l ∈ ls.flatMap (callEach name i all)) : l.ByName n j := by
  intro hlj
  obtain ⟨l₀, hl₀, hl⟩ := mem_flatMap.1 hl
  rcases mem_callEach hl with ⟨rfl, -⟩ | ⟨k, hk, rfl⟩
  · exact h l hl₀ hlj
  · exact absurd (Option.some.inj hlj ▸ hk) hj

lemma callEach_of_byName (h : l.ByName name i) : callEach name i [i] l = [l] := by
  unfold callEach
  split
  · next hl => rw [h hl, map_singleton]
  · rfl

lemma chained_mapCalls (f) (r : Rule) :
    (r.mapCalls (·.flatMap f)).chained.entries = r.chained.entries.flatMap f := by
  obtain ⟨body, -, -, -, -, -⟩ := r
  cases body with
  | chaining c => exact Calls.entries_map c.calls f
  | _ => rfl

end Calls

/-! ### Splits -/

namespace Split
variable {b b' : Book} {i : RoutineId} {groups : List (List RuleId)} {all : List RoutineId}

section
variable (h : Split b b' i groups all)
include h

lemma name_all (hj : j ∈ all) : (b'.routine j).name = (b.routine i).name := by
  obtain ⟨g, -, hg⟩ := h.fields hj
  exact (congrArg (·.name) hg).trans (name_withRules (b.routine i) g)

lemma name_old {j : RoutineId} (hj : j < b.routines.size) : (b'.routine j).name = (b.routine j).name := by
  by_cases hji : j = i
  · subst hji
    exact h.name_all (h.mem_all.2 (.inl rfl))
  · exact congrArg (·.name) (h.others j (h.not_mem_all hj hji))

lemma named (hsub : b'.allRules ⊆ b.allRules) : b'.Named i := by
  have name := h.name_all (h.mem_all.2 (.inl rfl))
  constructor
  case features =>
    intro f hf l hl
    rw [h.features] at hf
    obtain ⟨f₀, -, rfl⟩ := mem_map.1 hf
    rw [name]
    exact byName_callEach hl
  case chains =>
    intro id hid l hl
    rw [name]
    by_cases hcalls : some i ∈ Book.dependencies (b.rule id)
    · -- The chain is redirected at least once, and the last time makes its calls what they are.
      have hpos : 0 < (b.callers i).countP (b.shares · id) :=
        countP_pos_iff.2 ⟨id, mem_callers.2 ⟨hsub hid, hcalls⟩, shares_iff.2 (.inl rfl)⟩
      obtain ⟨k, hk⟩ := Nat.exists_eq_add_one.2 hpos
      rw [h.rule, hk, Function.iterate_succ_apply', chained_mapCalls] at hl
      exact byName_callEach hl
    · intro hli
      rw [h.rule_of_not_mem hcalls] at hl
      refine absurd ?_ hcalls
      rw [dependencies_eq]
      exact mem_map.2 ⟨l, hl, hli⟩

lemma named_of_ne (hsub : b'.allRules ⊆ b.allRules) {j : RoutineId}
    (hj : j < b.routines.size) (hne : j ≠ i) (hb : b.Named j) : b'.Named j := by
  have hnew : j ∉ all := h.not_mem_all hj hne
  constructor
  case features =>
    intro f hf l hl
    rw [h.features] at hf
    obtain ⟨f₀, hf₀, rfl⟩ := mem_map.1 hf
    rw [h.name_old hj]
    exact byName_callEach_of_ne hnew (hb.features f₀ hf₀) hl
  case chains =>
    intro id hid
    have kept k : ∀ l ∈ ((Rule.mapCalls (·.flatMap (callEach (b.routine i).name i all)))^[k]
        (b.rule id)).chained.entries, l.ByName (b.routine j).name j := by
      induction k with
      | zero => exact hb.chains id (hsub hid)
      | succ k ih =>
        intro l hl
        rw [Function.iterate_succ_apply', chained_mapCalls] at hl
        exact byName_callEach_of_ne hnew ih hl
    rw [h.name_old hj, h.rule]
    exact kept _

end

/-- A routine that is called by its name and stays whole leaves all calls as they are. -/
lemma calls_of_named (h : Split b b' i groups [i]) (hb : b.Named i) :
    b'.features = b.features ∧ ∀ id ∈ b.allRules, b'.rule id = b.rule id := by
  constructor
  · rw [h.features]
    refine (map_congr_left fun f hf => ?_).trans (map_id b.features)
    exact Prod.ext rfl ((flatMap_congr fun l hl => callEach_of_byName (hb.features f hf l hl)).trans (flatMap_singleton' _))
  · intro id hid
    rw [h.rule]
    exact Function.iterate_fixed (Rule.mapCalls_of_eq fun l hl => callEach_of_byName (hb.chains id hid l hl)) _

end Split
end GlyphRules
