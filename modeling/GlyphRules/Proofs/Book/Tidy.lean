import GlyphRules.Book.Scripts
import GlyphRules.Proofs.Book.Layers

/-! Books whose routines can be split.

In a `Tidy` book any routine in force can be split, whatever the factor, and a split keeps it so
(`Split.tidy`): it takes rules from no routine that does not hold them, puts its copies where the
routine stood, and a chain calls at most the new routines besides. -/
namespace GlyphRules

open Step List Book Act

variable {b : Book} {j : RoutineId}

def Book.IsExtension (b : Book) (j : RoutineId) : Prop := ∃ rs, (b.routine j).content = .extension rs

lemma Book.content_of_not_isExtension (hplain : ¬b.IsExtension j) (hne : b.ruleIds j ≠ []) :
    ∃ ids, (b.routine j).content = .rules ids := by
  cases hcontent : (b.routine j).content with
  | rules ids => exact ⟨ids, rfl⟩
  | extension rs => exact absurd ⟨rs, hcontent⟩ hplain
  | missing =>
    refine absurd ?_ hne
    unfold ruleIds ruleIdsWithin
    rw [hcontent]

lemma Book.mem_allRules {id} : id ∈ b.allRules ↔ ∃ j ∈ b.order, id ∈ b.ruleIds j :=
  mem_flatMap

/-- A visit finds nothing to visit, or it is over when the routine at its place is dealt with. -/
lemma Act.visit_on (f) (b) (n) :
    b.order.length ≤ n ∧ (visit f n).on b = (.ok none, b) ∨
      ∃ before i after, before.length = n ∧ b.order = before ++ i :: after ∧
        ∀ {b'}, (f i).on b = (.ok (), b') → (visit f n).on b = (.ok (some (n + 1)), b') := by
  cases hn : b.order[n]? with
  | none =>
    refine .inl ⟨List.getElem?_eq_none_iff.1 hn, ?_⟩
    rw [visit, on_get_bind, hn]
    rfl
  | some i =>
    obtain ⟨hlt, hi⟩ := List.getElem?_eq_some_iff.1 hn
    refine .inr ⟨b.order.take n, i, b.order.drop (n + 1), length_take_of_le (Nat.le_of_lt hlt), ?_, fun hrun => ?_⟩
    · rw [← hi, ← drop_eq_getElem_cons, take_append_drop]
    · rw [visit, on_get_bind, hn, on_bind_ok hrun]
      rfl

lemma Act.forRoutines_eq_ok {b b'} :
    (forRoutines f).on b = (.ok (), b') ↔ loop (visit f) 0 b = some (.ok (), b') := by
  rw [forRoutines, on_repeated]
  cases loop (visit f) 0 b with
  | none => exact ⟨fun h => (by cases h), fun h => (by cases h)⟩
  | some r => exact ⟨congrArg some, Option.some.inj⟩

/-- A book whose routines can be split: they are in force once each, extensions stand in layers,
chains of one group call the same, and the chains in force are resolved and leave no position
empty. -/
structure Tidy (b : Book) : Prop where
  nodup : b.order.Nodup
  within : ∀ j ∈ b.order, j < b.routines.size
  layered : ∃ rank, b.Layered rank
  coherent : b.Coherent
  resolved : ∀ id ∈ b.allRules, none ∉ Book.dependencies (b.rule id)
  slots : ∀ id ∈ b.allRules, ∀ c, (b.rule id).body = .chaining c → none ∉ c.calls

lemma Tidy.splittable (h : Tidy b) {i} (hi : i ∈ b.order) (hne : b.ruleIds i ≠ []) : Splittable b i := by
  refine ⟨h.nodup, hi, hne, h.resolved, fun u hu => ?_, h.coherent⟩
  obtain ⟨hmem, hcalls⟩ := mem_callers.1 hu
  obtain ⟨c, hc⟩ := chaining_of_mem hcalls
  rw [Rule.calls_chaining hc]
  exact h.slots u hmem c hc

namespace Split
variable {b' : Book} {i : RoutineId} {groups : List (List RuleId)} {all : List RoutineId}

/-! ### Calls and places -/

section
variable (h : Split b b' i groups all)
include h

/-- A chain calls what it called and, if anything else, the new routines. -/
lemma dependencies {id} {d} (hd : d ∈ Book.dependencies (b'.rule id)) :
    d ∈ Book.dependencies (b.rule id) ∨ ∃ k ∈ all, d = some k := by
  have kept k r (hr : d ∈ Book.dependencies
      ((Rule.mapCalls (·.flatMap (callEach (b.routine i).name i all)))^[k] r)) :
      d ∈ Book.dependencies r ∨ ∃ k ∈ all, d = some k := by
    induction k generalizing r with
    | zero => exact .inl hr
    | succ k ih =>
      rcases ih _ hr with hmem | hnew
      · rw [dependencies_mapCalls, mem_flatMap] at hmem
        obtain ⟨d', hd', hmem⟩ := hmem
        split at hmem
        · obtain ⟨k, hk, rfl⟩ := mem_map.1 hmem
          exact .inr ⟨k, hk, rfl⟩
        · obtain rfl := mem_singleton.1 hmem
          exact .inl hd'
      · exact .inr hnew
  rw [h.rule] at hd
  exact kept _ _ hd

lemma mem_order (hj : j ∈ b'.order) : j ∈ b.order ∧ j ≠ i ∨ j ∈ all := by
  rw [h.order, mem_flatMap] at hj
  obtain ⟨k, hk, hj⟩ := hj
  split at hj
  · exact .inr hj
  · next hne =>
    obtain rfl := mem_singleton.1 hj
    exact .inl ⟨hk, hne⟩

lemma nodup_order (hnodup : b.order.Nodup)
    (hwithin : ∀ j ∈ b.order, j < b.routines.size) (hi : i < b.routines.size) : b'.order.Nodup := by
  rw [h.order, nodup_flatMap]
  constructor
  · intro j _
    split
    · exact h.nodup hi
    · exact nodup_singleton j
  · refine hnodup.pairwise_of_forall_ne fun j hj k hk hne => ?_
    have apart {j} hj hne : j ∉ all := h.not_mem_all (hwithin j hj) hne
    show Disjoint (if j = i then all else [j]) (if k = i then all else [k])
    split
    · next hji =>
      rw [if_neg fun hki => hne (hji.trans hki.symm), disjoint_singleton]
      exact apart hk fun hki => hne (hji.trans hki.symm)
    · next hji =>
      rw [singleton_disjoint]
      split
      · exact apart hj hji
      · rwa [mem_singleton]

lemma order_eq (hnodup : b.order.Nodup) {before after}
    (horder : b.order = before ++ i :: after) : b'.order = before ++ all ++ after := by
  rw [horder] at hnodup
  obtain ⟨-, hafter, hbefore⟩ := nodup_append.1 hnodup
  have hbefore : i ∉ before := fun hi => hbefore i hi i (.head _) rfl
  rw [h.order, horder, flatMap_append, flatMap_cons, if_pos rfl, replace_of_not_mem hbefore,
    replace_of_not_mem (nodup_cons.1 hafter).1, append_assoc]

end

/-! ### Extensions -/

section
variable (h : Split b b' i groups all)
include h

lemma isExtension_copy (hj : j ∈ all) : b'.IsExtension j ↔ b.IsExtension i := by
  constructor
  · rintro ⟨rs, hrs⟩
    exact ⟨rs, h.extension_of_content hj hrs⟩
  · rintro ⟨rs, hrs⟩
    refine ⟨rs, (h.content_copy (fun ids hids => ?_) hj).trans hrs⟩
    rw [hrs] at hids
    cases hids

lemma isExtension_old (hj : j < b.routines.size) : b'.IsExtension j ↔ b.IsExtension j := by
  by_cases hi : j = i
  · subst hi
    exact h.isExtension_copy (h.mem_all.2 (.inl rfl))
  · unfold IsExtension
    rw [h.content_other (h.not_mem_all hj hi)]

lemma ruleIds_other (hj : j < b.routines.size) (hi : j ≠ i)
    (hplain : ¬b.IsExtension j) : b'.ruleIds j = b.ruleIds j := by
  unfold ruleIds ruleIdsWithin
  rw [h.content_other (h.not_mem_all hj hi)]
  cases hcontent : (b.routine j).content with
  | rules ids => rfl
  | missing => rfl
  | extension rs => exact absurd ⟨rs, hcontent⟩ hplain

end

/-! ### Rules in force -/

section Tidy
variable {β : Type} [BEq β] [LawfulBEq β] {value : RuleId → β}

section
variable (h : Split b b' i (pieces value (b.ruleIds i)) all) (hb : Tidy b) (hi : i ∈ b.order)
include h hb hi

lemma ruleIds_subset (hj : j ∈ all) : b'.ruleIds j ⊆ b.ruleIds i := by
  obtain ⟨rank, layered⟩ := hb.layered
  by_cases hplain : ∃ ids, (b.routine i).content = .rules ids
  · obtain ⟨ids, hids⟩ := hplain
    obtain ⟨g, hg, hcontent⟩ := h.content_rules hids hj
    rw [ruleIds_rules hcontent]
    exact fun id hid => ((mem_piece hg).2 id hid).1
  · rw [h.ruleIds_eq (not_exists.1 hplain) hj]
    exact (h.ruleIds_old layered (hb.within i hi)).1.subset

lemma allRules_subset : b'.allRules ⊆ b.allRules := by
  intro id hid
  obtain ⟨rank, layered⟩ := hb.layered
  obtain ⟨j, hj, hid⟩ := mem_allRules.1 hid
  rcases h.mem_order hj with ⟨hj, -⟩ | hj
  · exact mem_allRules.2 ⟨j, hj, (h.ruleIds_old layered (hb.within j hj)).1.subset hid⟩
  · exact mem_allRules.2 ⟨i, hi, h.ruleIds_subset hb hi hj hid⟩

end

omit [LawfulBEq β] in
lemma lt_of_mem_all (h : Split b b' i (pieces value (b.ruleIds i)) all) (hb : Tidy b) (hi : i ∈ b.order)
    (hj : j ∈ all) : j < b'.routines.size := by
  rcases h.mem_all.1 hj with rfl | ⟨-, hlt⟩
  · rw [h.size]
    exact Nat.lt_add_right _ (hb.within j hi)
  · exact hlt

lemma next_extension
    (h : Split b b' i (pieces value (b.ruleIds i)) (i :: copies)) (hb : Tidy b) (hi : i ∈ b.order)
    (hext : b.IsExtension i) {id id'} (hid : id ∈ b.ruleIds i) (hid' : id' ∈ b.ruleIds i)
    (hne : value id ≠ value id') :
    ∃ j rest, copies = j :: rest ∧ b'.IsExtension j ∧ b'.ruleIds j = b.ruleIds i := by
  obtain ⟨rank, layered⟩ := hb.layered
  have hcontent (ids) (hids : (b.routine i).content = .rules ids) : False := by
    obtain ⟨rs, hrs⟩ := hext
    rw [hrs] at hids
    cases hids
  obtain ⟨n, hn⟩ := Nat.exists_eq_add_of_le' (two_le_length_pieces hid hid' hne)
  have hcopies := (List.cons.inj h.all_eq).2
  rw [hn] at hcopies
  have hj : b.routines.size ∈ i :: copies := by simp [hcopies]
  refine ⟨b.routines.size, _, hcopies.trans List.range'_succ, (h.isExtension_copy hj).2 hext, ?_⟩
  rw [h.ruleIds_eq hcontent hj]
  exact (h.ruleIds_old layered (hb.within i hi)).2.resolve_right fun hplain => hplain.1.elim hcontent

/-- **A tidy book stays tidy** when one of its routines is split. -/
lemma tidy (h : Split b b' i (pieces value (b.ruleIds i)) all) (hb : Tidy b) (hi : i ∈ b.order) : Tidy b' := by
  obtain ⟨rank, layered⟩ := hb.layered
  constructor
  case nodup => exact h.nodup_order hb.nodup hb.within (hb.within i hi)
  case within =>
    intro j hj
    rcases h.mem_order hj with ⟨hj, -⟩ | hj
    · rw [h.size]
      exact Nat.lt_add_right _ (hb.within j hj)
    · exact h.lt_of_mem_all hb hi hj
  case layered => exact ⟨_, h.layered layered⟩
  case coherent => exact h.coherent
  case resolved =>
    intro id hid hnone
    rcases h.dependencies hnone with hnone | ⟨j, -, hj⟩
    · exact hb.resolved id (h.allRules_subset hb hi hid) hnone
    · cases hj
  case slots =>
    intro id hid c' hc'
    by_cases hchain : ∃ c, (b.rule id).body = .chaining c
    · obtain ⟨c, hc⟩ := hchain
      obtain ⟨c'', hc'', hiff⟩ := h.calls_eq hc
      obtain rfl := RuleBody.chaining.inj (hc'.symm.trans hc'')
      exact fun hnone => hb.slots id (h.allRules_subset hb hi hid) c hc (hiff.1 hnone)
    · rw [h.rule_of_ne (not_exists.1 hchain)] at hc'
      exact absurd ⟨c', hc'⟩ hchain

end Tidy
end Split
/-! ### Checks -/

def RoutineContent.members : RoutineContent → List RoutineId
  | .extension rs => rs
  | _ => []

/-- A book in which at most one routine is an extension and no rule is in a group. -/
abbrev Book.OneExtension (b : Book) (e : RoutineId) : Prop :=
  e < b.routines.size ∧ (∀ j ∈ b.order, j < b.routines.size) ∧
    (∀ j < b.routines.size, ∀ r ∈ (b.routine j).content.members, j = e ∧ r ≠ e ∧ r < b.routines.size) ∧
    ∀ r ∈ b.rules, r.group? = none

lemma Book.OneExtension.layered (h : b.OneExtension e) : b.Layered fun j => if j = e then 1 else 0 := by
  refine ⟨fun j => ?_, fun j rs hrs r hr => ?_⟩
  · show (if j = e then 1 else 0) ≤ _
    split
    · exact Nat.zero_lt_of_lt h.1
    · exact Nat.zero_le _
  · have hj : j < b.routines.size := by
      refine Nat.lt_of_not_le fun hle => ?_
      rw [routine_of_size_le hle] at hrs
      cases hrs
    obtain ⟨rfl, hne, hlt⟩ := h.2.2.1 j hj r (by rwa [hrs])
    exact ⟨hlt, by simp [hne]⟩

lemma Tidy.of_checks (h : b.OneExtension e) (hnodup : b.order.Nodup) (hforce : ∀ id ∈ b.allRules, none ∉ dependencies (b.rule id) ∧
      none ∉ (b.rule id).calls.getD []) : Tidy b where
  nodup := hnodup
  within := h.2.1
  layered := ⟨_, h.layered⟩
  coherent := coherent_of_ungrouped h.2.2.2
  resolved id hid := (hforce id hid).1
  slots id hid c hc := by
    have := (hforce id hid).2
    rwa [Rule.calls_chaining hc] at this

end GlyphRules
