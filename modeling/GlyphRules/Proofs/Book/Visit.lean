import Mathlib.Algebra.GroupWithZero.Nat
import GlyphRules.Proofs.Book.Tidy

/-! Visiting a routine to split it by type.

An `Orderly` book can be split by the types of its rules, and a split keeps it so (`Split.orderly`).
A visit never fails (`Act.visit_cases`). It does nothing to a routine of one type and divides a
plain routine (`Visited`); a mixed extension is followed by another one like it
(`Visited.extension`). -/
namespace GlyphRules

open Step List Book Act

variable {b b' : Book} {i j : RoutineId}

/-! ### Books that can be split -/

def Book.OneType (b : Book) (j : RoutineId) : Prop :=
  ∃ type, ∀ id ∈ b.ruleIds j, b.lookupType (b.rule id) = .ok type

/-- A book whose routines can be split by type: they are in force once each, extensions stand in
layers, chains of one group call the same, and all calls lead to routines that there are; the
chains in force are resolved and leave no position empty, and the rules in force have types. -/
structure Orderly (b : Book) : Prop where
  nodup : b.order.Nodup
  within : ∀ j ∈ b.order, j < b.routines.size
  layered : ∃ rank, b.Layered rank
  coherent : b.Coherent
  calls : b.CallsWithin
  resolved : ∀ id ∈ b.allRules, none ∉ Book.dependencies (b.rule id)
  slots : ∀ id ∈ b.allRules, none ∉ (b.rule id).calls.getD []
  typed : ∀ id ∈ b.allRules, ∃ type, b.lookupType (b.rule id) = .ok type

lemma Orderly.tidy (h : Orderly b) : Tidy b where
  nodup := h.nodup
  within := h.within
  layered := h.layered
  coherent := h.coherent
  resolved := h.resolved
  slots id hid c hc := by
    have := h.slots id hid
    rwa [Rule.calls_chaining hc] at this

def Book.typeOf (b : Book) (id : RuleId) : Option Int := (b.lookupType (b.rule id)).toOption.getD none

lemma Orderly.lookupType_eq (h : Orderly b) {id} (hid : id ∈ b.allRules) :
    b.lookupType (b.rule id) = .ok (b.typeOf id) := by
  obtain ⟨type, htype⟩ := h.typed id hid
  rw [typeOf, htype]
  rfl

lemma Orderly.oneType_iff (h : Orderly b) (hj : j ∈ b.order) :
    b.OneType j ↔ ∀ id ∈ b.ruleIds j, ∀ id' ∈ b.ruleIds j, b.typeOf id = b.typeOf id' := by
  have type (id) hid : b.lookupType (b.rule id) = .ok (b.typeOf id) :=
    h.lookupType_eq (mem_allRules.2 ⟨j, hj, hid⟩)
  constructor
  · rintro ⟨t, ht⟩ id hid id' hid'
    have heq : (Except.ok (b.typeOf id) : Except Fault _) = .ok (b.typeOf id') := by
      rw [← type id hid, ← type id' hid', ht id hid, ht id' hid']
    exact Except.ok.inj heq
  · intro hall
    cases hids : b.ruleIds j with
    | nil => exact ⟨none, by simp [hids]⟩
    | cons first rest =>
      have hfirst : first ∈ b.ruleIds j := hids ▸ mem_cons_self ..
      refine ⟨b.typeOf first, fun id hid => ?_⟩
      rw [type id hid, hall id hid first hfirst]

/-- The types stay, and so does that a routine has one, if it gains no rules. -/
lemma Book.OneType.of_subset (types : ∀ id ∈ b.allRules,
    b'.lookupType (b'.rule id) = b.lookupType (b.rule id)) (hi : i ∈ b.order)
    (h : b.OneType i) (hsubset : b'.ruleIds j ⊆ b.ruleIds i) : b'.OneType j := by
  obtain ⟨type, htype⟩ := h
  refine ⟨type, fun id hid => ?_⟩
  rw [types id (mem_allRules.2 ⟨i, hi, hsubset hid⟩), htype id (hsubset hid)]

lemma Split.orderly {all} {β} [BEq β] [LawfulBEq β] {value : RuleId → β}
    (h : Split b b' i (pieces value (b.ruleIds i)) all) (hb : Orderly b) (hi : i ∈ b.order) : Orderly b' := by
  obtain ⟨rank, layered⟩ := hb.layered
  have tidy := h.tidy hb.tidy hi
  have kept := h.allRules_subset hb.tidy hi
  constructor
  case nodup => exact tidy.nodup
  case within => exact tidy.within
  case layered => exact tidy.layered
  case coherent => exact tidy.coherent
  case calls =>
    intro id k hk
    rcases h.dependencies hk with hk | ⟨j, hj, hk⟩
    · rw [h.size]
      exact Nat.lt_add_right _ (hb.calls id k hk)
    · cases hk
      exact h.lt_of_mem_all hb.tidy hi hj
  case resolved => exact tidy.resolved
  case slots =>
    intro id hid
    have old := hb.slots id (kept hid)
    by_cases hchain : ∃ c, (b.rule id).body = .chaining c
    · obtain ⟨c, hc⟩ := hchain
      obtain ⟨c', hc', hiff⟩ := h.calls_eq hc
      rw [Rule.calls_chaining hc] at old
      rw [Rule.calls_chaining hc']
      exact fun hnone => old (hiff.1 hnone)
    · rwa [h.rule_of_ne (not_exists.1 hchain)]
  case typed =>
    intro id hid
    obtain ⟨type, htype⟩ := hb.typed id (kept hid)
    exact ⟨type, h.lookupType_eq layered hb.calls htype⟩

/-! ### One visit -/

lemma Act.splitByType_empty (h : b.ruleIds i = []) : (splitByType i).on b = (.ok (), b) := by
  unfold splitByType partition
  rw [bind_assoc, on_get_bind, h]
  rfl

/-- What a visit does to the routine in the middle. One type leaves all rules where they are. A plain
routine is divided by type. A mixed extension is followed by another one with the same rules. -/
structure Visited (b b' : Book) (before : List RoutineId) (i : RoutineId) (copies after : List RoutineId) :
    Prop where
  orderly : Orderly b'
  types : ∀ id ∈ b.allRules, b'.lookupType (b'.rule id) = b.lookupType (b.rule id)
  order : b'.order = before ++ i :: copies ++ after
  kind : ∀ j ∈ b.order, b'.IsExtension j ↔ b.IsExtension j
  sublist : ∀ j ∈ b.order, (b'.ruleIds j).Sublist (b.ruleIds j)
  others : ∀ j ∈ b.order, j ≠ i → b'.ruleIds j = b.ruleIds j ∨ b.IsExtension j ∧ b.ruleIds i ⊆ b.ruleIds j
  single : b.OneType i → copies = [] ∧ ∀ j, b'.ruleIds j = b.ruleIds j
  plain : ¬b.OneType i → ¬b.IsExtension i → (i :: copies).map b'.ruleIds = pieces b.typeOf (b.ruleIds i)
  extension : ¬b.OneType i → b.IsExtension i →
    ∃ j rest, copies = j :: rest ∧ b'.IsExtension j ∧ b'.ruleIds j = b.ruleIds i

lemma Visited.refl (h : Orderly b) {before after} (horder : b.order = before ++ i :: after)
    (hone : b.OneType i) : Visited b b before i [] after where
  orderly := h
  types _ _ := rfl
  order := by simpa using horder
  kind _ _ := Iff.rfl
  sublist _ _ := Sublist.refl _
  others _ _ _ := .inl rfl
  single _ := ⟨rfl, fun _ => rfl⟩
  plain hmixed := absurd hone hmixed
  extension hmixed := absurd hone hmixed

lemma Split.visited (hb : Orderly b)
    (h : Split b b' i (pieces b.typeOf (b.ruleIds i)) (i :: copies)) (hne : b.ruleIds i ≠ [])
    {before after} (horder : b.order = before ++ i :: after) : Visited b b' before i copies after := by
  obtain ⟨rank, layered⟩ := hb.layered
  have hi : i ∈ b.order := by simp [horder]
  have old {j} hj := h.ruleIds_old layered (hb.within j hj)
  have hcopies : copies = List.range' b.routines.size ((pieces b.typeOf (b.ruleIds i)).length - 1) :=
    (List.cons.inj h.all_eq).2
  constructor
  case orderly => exact h.orderly hb hi
  case types =>
    intro id hid
    obtain ⟨type, htype⟩ := hb.typed id hid
    rw [htype, h.lookupType_eq layered hb.calls htype]
  case order => exact h.order_eq hb.nodup horder
  case kind => exact fun j hj => h.isExtension_old (hb.within j hj)
  case sublist => exact fun j hj => (old hj).1
  case others =>
    intro j hj hji
    by_cases hext : b.IsExtension j
    · exact (old hj).2.imp_right fun hsubset => ⟨hext, hsubset.2⟩
    · exact .inl (h.ruleIds_other (hb.within j hj) hji hext)
  case single =>
    intro hone
    have one := pieces_of_eq hne ((hb.oneType_iff hi).1 hone)
    rw [one] at h
    rw [one] at hcopies
    exact ⟨hcopies, h.ruleIds_of_single⟩
  case plain =>
    intro _ hplain
    obtain ⟨ids, hcontent⟩ := content_of_not_isExtension hplain hne
    exact h.map_ruleIds hcontent
  case extension =>
    intro hmixed hext
    rw [hb.oneType_iff hi] at hmixed
    push Not at hmixed
    obtain ⟨id, hid, id', hid', hne⟩ := hmixed
    exact h.next_extension hb.tidy hi hext hid hid' hne

/-- A visit finds nothing to visit, or the routine at its place is split. -/
lemma Act.visit_cases (h : Orderly b) (n) : b.order.length ≤ n ∧ (visit splitByType n).on b = (.ok none, b) ∨
      ∃ before i after copies b', before.length = n ∧ b.order = before ++ i :: after ∧
        (visit splitByType n).on b = (.ok (some (n + 1)), b') ∧ Visited b b' before i copies after := by
  rcases visit_on splitByType b n with hend | ⟨before, i, after, hlength, horder, visit⟩
  · exact .inl hend
  · refine .inr ⟨before, i, after, ?_⟩
    by_cases hne : b.ruleIds i = []
    · have hone : b.OneType i := ⟨none, by simp [hne]⟩
      exact ⟨[], b, hlength, horder, visit (splitByType_empty hne), .refl h horder hone⟩
    · have hi : i ∈ b.order := by simp [horder]
      obtain ⟨all, b', hrun, hsplit⟩ := partition_on (fun b r => b.lookupType r) b.typeOf (h.tidy.splittable hi hne)
        fun b' marked id hid => by
          rw [marked.lookupType]
          exact h.lookupType_eq (mem_allRules.2 ⟨i, hi, hid⟩)
      have hall := hsplit.all_eq
      rw [hall] at hsplit
      exact ⟨_, b', hlength, horder, visit (on_bind_ok hrun _), hsplit.visited h hne horder⟩

namespace Visited
variable {before copies after : List RoutineId}

section
variable (h : Visited b b' before i copies after)
include h

lemma take_order : b'.order.take (before.length + 1) = before ++ [i] := by
  rw [h.order, append_assoc, take_length_add_append]
  rfl

lemma drop_order : b'.order.drop (before.length + 1) = copies ++ after := by
  rw [h.order, append_assoc, drop_length_add_append]
  rfl

lemma allRules_eq : b'.allRules =
    before.flatMap b'.ruleIds ++ (i :: copies).flatMap b'.ruleIds ++ after.flatMap b'.ruleIds := by
  rw [allRules, h.order, flatMap_append, flatMap_append]

/-- Unless it is a mixed extension, the routine and its copies have its rules. -/
lemma perm (hi : b.OneType i ∨ ¬b.IsExtension i) : ((i :: copies).flatMap b'.ruleIds).Perm (b.ruleIds i) := by
  by_cases hone : b.OneType i
  · obtain ⟨rfl, same⟩ := h.single hone
    rw [flatMap_singleton, same]
  · rw [flatMap_def, h.plain hone (hi.resolve_left hone)]
    exact perm_pieces _ _

lemma ruleIds_mem (hone : ¬b.OneType i) (hplain : ¬b.IsExtension i)
    (hj : j ∈ i :: copies) : b'.ruleIds j ∈ pieces b.typeOf (b.ruleIds i) := by
  rw [← h.plain hone hplain]
  exact mem_map_of_mem hj

lemma oneType (hb : Orderly b) (hmem : i ∈ b.order)
    (hi : b.OneType i ∨ ¬b.IsExtension i) (hj : j ∈ i :: copies) : b'.OneType j := by
  by_cases hone : b.OneType i
  · obtain ⟨rfl, -⟩ := h.single hone
    obtain rfl := mem_singleton.1 hj
    exact hone.of_subset h.types hmem (h.sublist j hmem).subset
  · obtain ⟨hne, hpiece⟩ := mem_piece (h.ruleIds_mem hone (hi.resolve_left hone) hj)
    obtain ⟨first, hfirst⟩ := exists_mem_of_ne_nil _ hne
    refine ⟨b.typeOf first, fun id hid => ?_⟩
    obtain ⟨hold, heq⟩ := hpiece id hid
    have hall : id ∈ b.allRules := mem_allRules.2 ⟨i, hmem, hold⟩
    rw [h.types id hall, hb.lookupType_eq hall, heq first hfirst]

/-- The copies take less to visit than the routine had to give. -/
lemma sum_copies (hi : b.OneType i ∨ ¬b.IsExtension i) :
    (copies.map fun j => max 1 (b'.ruleIds j).length).sum < max 1 (b.ruleIds i).length := by
  by_cases hone : b.OneType i
  · obtain ⟨rfl, -⟩ := h.single hone
    exact Nat.lt_of_lt_of_le Nat.zero_lt_one (Nat.le_max_left _ _)
  · have pos {j} hj : 0 < (b'.ruleIds j).length :=
      length_pos_of_ne_nil (mem_piece (h.ruleIds_mem hone (hi.resolve_left hone) hj)).1
    have sum : (copies.map fun j => max 1 (b'.ruleIds j).length).sum = (copies.flatMap b'.ruleIds).length := by
      rw [length_flatMap]
      refine congrArg List.sum (map_congr_left fun j hj => ?_)
      exact Nat.max_eq_right (pos (.tail _ hj))
    have total := (h.perm hi).length_eq
    rw [flatMap_cons, length_append] at total
    have := pos (.head _)
    omega

end

end Visited

end GlyphRules
