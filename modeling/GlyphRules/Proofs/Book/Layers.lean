import Mathlib.Data.List.Flatten
import GlyphRules.Proofs.Book.Partition
import GlyphRules.Proofs.Book.Stage

/-! What a split keeps.

Extensions hold routines of lower layers (`Book.Layered`), also after a split. A split takes rules
only out of routines that hold all rules of the one that is split (`Split.ruleIds_old`). The first
rule of a routine and the first call of a chain stay, and with them the stages of routines and the
types of rules (`Split.lookupType_eq`). -/
namespace GlyphRules

open Step List Rule Calls Book

variable {j r : RoutineId} {c : Chaining} {id : RuleId} {rank : RoutineId → Nat}

/-! ### Layers -/

/-- Extensions hold routines of lower layers. -/
def Book.Layered (b : Book) (rank : RoutineId → Nat) : Prop :=
  (∀ j, rank j ≤ b.routines.size) ∧
    ∀ j rs, (b.routine j).content = .extension rs → ∀ r ∈ rs, r < b.routines.size ∧ rank r < rank j

namespace Book.Layered
variable {b : Book}

/-- A search that goes down all layers finds the same rules in any greater number of steps. -/
lemma ruleIdsWithin_eq (h : b.Layered rank) {fuel more} (hfuel : rank j < fuel) (hmore : rank j < more) :
    b.ruleIdsWithin fuel j = b.ruleIdsWithin more j := by
  induction fuel generalizing j more with
  | zero => omega
  | succ fuel ih =>
    obtain ⟨more, rfl⟩ := Nat.exists_eq_add_one.2 (Nat.zero_lt_of_lt hmore)
    unfold ruleIdsWithin
    cases hcontent : (b.routine j).content with
    | rules ids => rfl
    | missing => rfl
    | extension rs =>
      refine flatMap_congr fun r hr => ?_
      have := (h.2 j rs hcontent r hr).2
      exact ih (by omega) (by omega)

lemma ruleIds_eq (h : b.Layered rank) {fuel} (hfuel : rank j < fuel) : b.ruleIds j = b.ruleIdsWithin fuel j :=
  h.ruleIdsWithin_eq (Nat.lt_succ_of_le (h.1 j)) hfuel

end Book.Layered

/-! ### Rules of routines -/

namespace Split
variable {b b' : Book} {i : RoutineId} {groups : List (List RuleId)} {all : List RoutineId}

section
variable (h : Split b b' i groups all)
include h

lemma routine_self : ∃ g, groups.head? = some g ∧ (b'.routine i).content = ((b.routine i).withRules g).content := by
  have hroutines := h.routines
  rw [h.all_eq] at hroutines
  cases groups with
  | nil => cases hroutines
  | cons g groups =>
    have same : (b'.routine i).unmarked = ((b.routine i).withRules g).unmarked := (List.cons.inj hroutines).1
    exact ⟨g, rfl, congrArg (·.content) same⟩

lemma not_mem_all (hr : r < b.routines.size) (hne : r ≠ i) : r ∉ all := by
  rw [h.mem_all]
  rintro (rfl | ⟨hle, -⟩)
  · exact hne rfl
  · exact Nat.not_lt_of_le hle hr

lemma extension_of_content (hj : j ∈ all) {rs}
    (hcontent : (b'.routine j).content = .extension rs) : (b.routine i).content = .extension rs := by
  by_cases hplain : ∃ ids, (b.routine i).content = .rules ids
  · obtain ⟨ids, hids⟩ := hplain
    obtain ⟨g, -, hg⟩ := h.content_rules hids hj
    rw [hcontent] at hg
    cases hg
  · rw [← h.content_copy (not_exists.1 hplain) hj, hcontent]

lemma layered (hb : b.Layered rank) : b'.Layered fun j => if j < b.routines.size then rank j else rank i := by
  refine ⟨fun j => ?_, fun j rs hcontent r hr => ?_⟩
  · have hsize := h.size
    show (if j < b.routines.size then rank j else rank i) ≤ _
    split
    · exact Nat.le_trans (hb.1 j) (by omega)
    · exact Nat.le_trans (hb.1 i) (by omega)
  · have lower : r < b.routines.size ∧ rank r < if j < b.routines.size then rank j else rank i := by
      by_cases hj : j ∈ all
      · have same : (if j < b.routines.size then rank j else rank i) = rank i := by
          rcases h.mem_all.1 hj with rfl | ⟨hle, -⟩
          · exact ite_self _
          · rw [if_neg (Nat.not_lt_of_le hle)]
        rw [same]
        exact hb.2 i rs (h.extension_of_content hj hcontent) r hr
      · rw [h.content_other hj] at hcontent
        have hlt : j < b.routines.size := by
          refine Nat.lt_of_not_le fun hle => ?_
          rw [routine_of_size_le hle] at hcontent
          cases hcontent
        rw [if_pos hlt]
        exact hb.2 j rs hcontent r hr
    refine ⟨?_, ?_⟩
    · rw [h.size]
      exact Nat.lt_add_right _ lower.1
    · show (if r < b.routines.size then rank r else rank i) < _
      rw [if_pos lower.1]
      exact lower.2

/-- A routine there was has what it had, but for the one that is split: that has the first group. -/
lemma content_old (hr : r < b.routines.size) :
    (b'.routine r).content = (b.routine r).content ∨ r = i ∧ ∃ ids g, groups.head? = some g ∧
      (b.routine r).content = .rules ids ∧ (b'.routine r).content = .rules g := by
  by_cases hi : r = i
  · subst hi
    obtain ⟨g, hg, hself⟩ := h.routine_self
    by_cases hplain : ∃ ids, (b.routine r).content = .rules ids
    · obtain ⟨ids, hids⟩ := hplain
      exact .inr ⟨rfl, ids, g, hg, hids, hself.trans (content_withRules hids g)⟩
    · rw [withRules_of_ne (not_exists.1 hplain)] at hself
      exact .inl hself
  · exact .inl (h.content_other (h.not_mem_all hr hi))

lemma ruleIdsWithin_old (hb : b.Layered rank)
    (hgroups : ∀ g, groups.head? = some g → g.Sublist (b.ruleIds i)) (fuel) (hr : r < b.routines.size) :
    (b'.ruleIdsWithin fuel r).Sublist (b.ruleIdsWithin fuel r) ∧ (b'.ruleIdsWithin fuel r = b.ruleIdsWithin fuel r ∨
        (∃ ids, (b.routine i).content = .rules ids) ∧ b.ruleIds i ⊆ b.ruleIdsWithin fuel r) := by
  induction fuel generalizing r with
  | zero => exact ⟨Sublist.refl _, .inl rfl⟩
  | succ fuel ih =>
    have same (hcontent : (b'.routine r).content = (b.routine r).content) :
        (b'.ruleIdsWithin (fuel + 1) r).Sublist (b.ruleIdsWithin (fuel + 1) r) ∧
          (b'.ruleIdsWithin (fuel + 1) r = b.ruleIdsWithin (fuel + 1) r ∨
            (∃ ids, (b.routine i).content = .rules ids) ∧ b.ruleIds i ⊆ b.ruleIdsWithin (fuel + 1) r) := by
      unfold ruleIdsWithin
      rw [hcontent]
      cases hold : (b.routine r).content with
      | rules ids | missing => exact ⟨Sublist.refl _, .inl rfl⟩
      | extension rs =>
        have members (m) hm := ih (hb.2 r rs hold m hm).1
        refine ⟨.flatMap_right _ fun m hm => (members m hm).1, ?_⟩
        by_cases hall : ∀ m ∈ rs, b'.ruleIdsWithin fuel m = b.ruleIdsWithin fuel m
        · exact .inl (flatMap_congr hall)
        · push Not at hall
          obtain ⟨m, hm, hne⟩ := hall
          obtain ⟨hplain, hsubset⟩ := (members m hm).2.resolve_left hne
          exact .inr ⟨hplain, fun id hid => mem_flatMap.2 ⟨m, hm, hsubset hid⟩⟩
    rcases h.content_old hr with hcontent | ⟨rfl, ids, g, hg, hids, hself⟩
    · exact same hcontent
    · have hruleIds := ruleIds_rules hids
      unfold ruleIdsWithin
      rw [hself, hids]
      exact ⟨hruleIds ▸ hgroups g hg, .inr ⟨⟨ids, rfl⟩, fun id hid => hruleIds ▸ hid⟩⟩

end

lemma ruleIds_old [BEq β] [LawfulBEq β] {value : RuleId → β}
    (h : Split b b' i (pieces value (b.ruleIds i)) all) (hb : b.Layered rank)
    (hr : r < b.routines.size) : (b'.ruleIds r).Sublist (b.ruleIds r) ∧ (b'.ruleIds r = b.ruleIds r ∨
        (∃ ids, (b.routine i).content = .rules ids) ∧ b.ruleIds i ⊆ b.ruleIds r) := by
  have hfuel : rank r < b'.routines.size + 1 := by
    have := hb.1 r
    have := h.size
    omega
  rw [hb.ruleIds_eq hfuel]
  exact h.ruleIdsWithin_old hb (fun g hg => (head?_pieces hg).1) _ hr

end Split

/-! ### Stages -/

lemma Lookup.target_eq_ok {l : Lookup} {i} : l.target = .ok i ↔ l.routine? = some i := by
  rcases l with j | ⟨name, _ | j⟩
  · exact ⟨fun h => by cases h; rfl, fun h => by cases h; rfl⟩
  · exact ⟨fun h => (by cases h), fun h => (by cases h)⟩
  · exact ⟨fun h => by cases h; rfl, fun h => by cases h; rfl⟩

namespace Rule

lemma lead_chaining {r : Rule} (h : r.body = .chaining c) : r.lead = c.calls.lead := by
  rw [lead, h]

lemma mem_of_lead {r} {k} (h : r.lead = .ok (.inr k)) : some k ∈ dependencies r := by
  unfold lead at h
  split at h
  · cases h
  · cases h
  · cases h
  · next c hc =>
    unfold Calls.lead Calls.first? at h
    rw [dependencies, hc]
    cases hentries : c.calls.entries with
    | nil =>
      rw [hentries] at h
      cases h
    | cons l rest =>
      rw [hentries] at h
      obtain ⟨j, hj, hk⟩ := bind_eq_ok.1 h
      cases hk
      exact mem_map.2 ⟨l, hentries ▸ mem_cons_self .., Lookup.target_eq_ok.1 hj⟩

/-- The routine comes first among those that are called for it, so the lead stays. -/
lemma lead_mapCalls (name) (i) (copies) (r : Rule) :
    (r.mapCalls (·.flatMap (callEach name i (i :: copies)))).lead = r.lead := by
  obtain ⟨body, -, -, -, -, -⟩ := r
  cases body with
  | chaining c =>
    show Calls.lead (c.calls.map _) = c.calls.lead
    unfold Calls.lead Calls.first?
    rw [entries_map]
    cases c.calls.entries with
    | nil => rfl
    | cons l rest =>
      rw [flatMap_cons]
      by_cases hl : l.routine? = some i
      · rw [show callEach name i (i :: copies) l = _ from if_pos hl]
        simp only [List.head?_cons, Lookup.target_eq_ok.2 hl]
        rfl
      · rw [show callEach name i (i :: copies) l = _ from if_neg hl]
        rfl
  | _ => rfl

end Rule

def Book.CallsWithin (b : Book) : Prop :=
  ∀ id k, some k ∈ Book.dependencies (b.rule id) → k < b.routines.size

namespace Split
variable {b b' : Book} {i : RoutineId} {groups : List (List RuleId)} {all : List RoutineId}

lemma rule_lead (h : Split b b' i groups all) (id) : (b'.rule id).lead = (b.rule id).lead := by
  have kept k r :
      ((mapCalls (·.flatMap (callEach (b.routine i).name i all)))^[k] r).lead = r.lead := by
    induction k generalizing r with
    | zero => rfl
    | succ k ih => rw [Function.iterate_succ_apply, ih, h.all_eq, lead_mapCalls]
  rw [h.rule, kept]

section Types
variable {β : Type} [BEq β] [LawfulBEq β] {value : RuleId → β}

section
variable (h : Split b b' i (pieces value (b.ruleIds i)) all)
include h

lemma lead_old (hr : r < b.routines.size) : b'.lead r = b.lead r := by
  have same (hcontent : (b'.routine r).content = (b.routine r).content) : b'.lead r = b.lead r := by
    unfold Book.lead
    simp only [hcontent, h.rule_lead]
  rcases h.content_old hr with hcontent | ⟨rfl, ids, g, hg, hids, hself⟩
  · exact same hcontent
  · obtain ⟨-, hhead⟩ := head?_pieces hg
    rw [ruleIds_rules hids] at hhead
    unfold Book.lead
    rw [hself, hids]
    cases ids with
    | nil =>
      obtain rfl := List.head?_eq_none_iff.1 hhead
      rfl
    | cons id ids =>
      obtain ⟨tail, rfl⟩ := List.head?_eq_some_iff.1 hhead
      exact h.rule_lead id

lemma routineStageWithin_old (hb : b.Layered rank) (hcalls : b.CallsWithin) (fuel) (hr : r < b.routines.size) :
    b'.routineStageWithin fuel r = b.routineStageWithin fuel r := by
  induction fuel generalizing r with
  | zero => rfl
  | succ fuel ih =>
    rw [routineStageWithin_succ, routineStageWithin_succ, h.lead_old hr]
    cases hlead : b.lead r with
    | error => rfl
    | ok l =>
      cases l with
      | inl => rfl
      | inr k =>
        refine ih ?_
        unfold Book.lead at hlead
        split at hlead
        · cases hlead
        · cases hlead
        · next hcontent =>
          cases hlead
          exact (hb.2 r _ hcontent _ (.head _)).1
        · cases hlead
        · exact hcalls _ k (mem_of_lead hlead)

end

end Types
end Split

/-! ### Types -/

lemma Book.lookupType_chaining {b : Book} {r} (h : r.body = .chaining c) :
    b.lookupType r = (c.calls.lead >>= follow b.routineStage) >>= fun stage =>
      .ok (some (if stage == some .pos then 8 else 6)) := by
  rw [lookupType, h, ← callsStage_eq]
  rfl

lemma Book.lookupType_of_ne {r} (h : ∀ c, r.body ≠ .chaining c) (b b' : Book) :
    b'.lookupType r = b.lookupType r := by
  unfold lookupType
  split
  · rfl
  · rfl
  · next c hc => exact absurd hc (h c)
  · rfl

lemma Marked.lookupType (h : Marked b b') (r) : b'.lookupType r = b.lookupType r := by
  by_cases hchain : ∃ c, r.body = .chaining c
  · obtain ⟨c, hc⟩ := hchain
    have lead (j) : b'.lead j = b.lead j := by
      unfold Book.lead
      simp only [h.content, h.rule]
    have stage : b'.routineStage = b.routineStage := by
      funext j
      unfold routineStage
      rw [h.size, routineStageWithin_congr lead]
    rw [lookupType_chaining hc, lookupType_chaining hc, stage]
  · exact lookupType_of_ne (not_exists.1 hchain) b b'

namespace Split
variable {b b' : Book} {i : RoutineId} {groups : List (List RuleId)} {all : List RoutineId}

lemma rule_of_ne (h : Split b b' i groups all) (hid : ∀ c, (b.rule id).body ≠ .chaining c) :
    b'.rule id = b.rule id := by
  refine h.rule_of_not_mem fun hmem => ?_
  obtain ⟨c, hc⟩ := chaining_of_mem hmem
  exact hid c hc

lemma calls_eq (h : Split b b' i groups all) (hc : (b.rule id).body = .chaining c) :
    ∃ c', (b'.rule id).body = .chaining c' ∧ (none ∈ c'.calls ↔ none ∈ c.calls) := by
  have kept k {r : Rule} {c} (hr : r.body = .chaining c) :
      ∃ c', ((mapCalls (·.flatMap (callEach (b.routine i).name i all)))^[k] r).body = .chaining c' ∧
        (none ∈ c'.calls ↔ none ∈ c.calls) := by
    induction k generalizing r c with
    | zero => exact ⟨c, hr, Iff.rfl⟩
    | succ k ih =>
      have mapped : (r.mapCalls (·.flatMap (callEach (b.routine i).name i all))).body = .chaining
          { c with calls := c.calls.map (Option.map (·.flatMap (callEach (b.routine i).name i all))) } := by
        rw [mapCalls, hr]
      obtain ⟨c', hc', hiff⟩ := ih mapped
      refine ⟨c', hc', hiff.trans ?_⟩
      simp
  rw [h.rule]
  exact kept _ hc

/-- **No rule changes its type when a routine is split.** -/
lemma lookupType_eq [BEq β] [LawfulBEq β] {value : RuleId → β}
    (h : Split b b' i (pieces value (b.ruleIds i)) all) (hb : b.Layered rank)
    (hcalls : b.CallsWithin) {type} (htype : b.lookupType (b.rule id) = .ok type) :
    b'.lookupType (b'.rule id) = .ok type := by
  by_cases hchain : ∃ c, (b.rule id).body = .chaining c
  · obtain ⟨c, hc⟩ := hchain
    obtain ⟨c', hc', -⟩ := h.calls_eq hc
    have hlead : c'.calls.lead = c.calls.lead := by
      rw [← lead_chaining hc', ← lead_chaining hc, h.rule_lead]
    rw [lookupType_chaining hc] at htype
    obtain ⟨stage, hstage, htype⟩ := bind_eq_ok.1 htype
    obtain ⟨l, hl, hstage⟩ := bind_eq_ok.1 hstage
    have kept : follow b'.routineStage l = .ok stage := by
      cases l with
      | inl => exact hstage
      | inr k =>
        have hk := hcalls id k (mem_of_lead ((lead_chaining hc).trans hl))
        rw [follow, routineStage, ← h.routineStageWithin_old hb hcalls _ hk] at hstage
        refine routineStageWithin_mono hstage ?_
        rw [h.size]
        omega
    rwa [lookupType_chaining hc', hlead, hl, ok_bind, kept]
  · rwa [h.rule_of_ne (not_exists.1 hchain), lookupType_of_ne (not_exists.1 hchain) b b']

end Split
end GlyphRules
