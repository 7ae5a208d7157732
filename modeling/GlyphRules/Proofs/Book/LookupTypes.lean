import GlyphRules.Build.Routine
import GlyphRules.Proofs.Book.Visit

/-! Splitting all routines by type.

The run goes on to the routines that it adds. Where all extensions have rules of one type, every
visit leaves less to visit (`Sorting.step`), so the run ends with the book sorted. A mixed extension
spoils the run (`Spoiled.step`): either it never gets past its copies, or a split has taken rules
away from it. `splitByType_sorts_iff` puts the two together. -/
namespace GlyphRules

open Step List Book Act

variable {b s t b' : Book} {j k : RoutineId}

/-! ### Sorted books -/

/-- A book was sorted by type: every routine has rules of one type, the rules in force are the same,
each as often as before, and every rule has the type that it had. -/
structure SortedByType (b b' : Book) : Prop where
  types : ∀ j ∈ b'.order, ∃ type, Build.commonType b' (b'.rulesOf j) = .ok type ∧
    ∀ id ∈ b'.ruleIds j, b'.lookupType (b'.rule id) = .ok type
  rules : b'.allRules.Perm b.allRules
  kept : ∀ id ∈ b.allRules, b'.lookupType (b'.rule id) = b.lookupType (b.rule id)

lemma commonType_eq (h : b.OneType j) : ∃ type,
    Build.commonType b (b.rulesOf j) = .ok type ∧ ∀ id ∈ b.ruleIds j, b.lookupType (b.rule id) = .ok type := by
  obtain ⟨type, htype⟩ := h
  have types : (b.rulesOf j).mapM b.lookupType = .ok ((b.rulesOf j).map fun _ => type) := by
    refine mapM_ok fun r hr => ?_
    obtain ⟨id, hid, rfl⟩ := mem_map.1 hr
    exact htype id hid
  rw [Build.commonType, types, ok_bind]
  unfold rulesOf
  cases hids : b.ruleIds j with
  | nil => exact ⟨none, rfl, by simp⟩
  | cons first rest =>
    refine ⟨type, ?_, hids ▸ htype⟩
    simp [pure, Except.pure]

/-! ### Runs that sort -/

/-- What holds while a book is sorted, up to a place. -/
structure Sorting (b : Book) (n : Nat) (s : Book) : Prop where
  orderly : Orderly s
  rules : s.allRules.Perm b.allRules
  kept : ∀ id ∈ b.allRules, s.lookupType (s.rule id) = b.lookupType (b.rule id)
  extensions : ∀ j ∈ s.order, s.IsExtension j → s.OneType j
  done : ∀ j ∈ s.order.take n, s.OneType j

def load (n : Nat) (s : Book) : Nat := ((s.order.drop n).map fun j => max 1 (s.ruleIds j).length).sum

namespace Sorting
variable {before copies after : List RoutineId} {i : RoutineId}

lemma divisible (h : Sorting b before.length s) (hi : i ∈ s.order) : s.OneType i ∨ ¬s.IsExtension i := by
  by_cases hext : s.IsExtension i
  · exact .inl (h.extensions i hi hext)
  · exact .inr hext

section
variable (h : Sorting b before.length s) (horder : s.order = before ++ i :: after) (hv : Visited s t before i copies after)
include h horder hv

/-- No other routine loses a rule: an extension that held a mixed routine would be mixed. -/
lemma others (hj : j ∈ before ∨ j ∈ after) : j ∈ s.order ∧ t.ruleIds j = s.ruleIds j := by
  obtain ⟨-, hafter, hbefore⟩ := nodup_append.1 (horder ▸ h.orderly.nodup)
  obtain ⟨hmem, hne⟩ : j ∈ s.order ∧ j ≠ i := by
    rw [horder]
    rcases hj with hj | hj
    · exact ⟨mem_append_left _ hj, hbefore j hj i (.head _)⟩
    · refine ⟨mem_append_right _ (.tail _ hj), ?_⟩
      rintro rfl
      exact (nodup_cons.1 hafter).1 hj
  refine ⟨hmem, ?_⟩
  by_cases hone : s.OneType i
  · exact (hv.single hone).2 j
  · refine (hv.others j hmem hne).resolve_right fun ⟨hext, hsubset⟩ => hone ?_
    exact (h.extensions j hmem hext).of_subset (fun _ _ => rfl) hmem hsubset

lemma perm : t.allRules.Perm s.allRules := by
  have hi : i ∈ s.order := by simp [horder]
  rw [hv.allRules_eq, flatMap_congr fun j hj => (h.others horder hv (.inl hj)).2,
    flatMap_congr fun j hj => (h.others horder hv (.inr hj)).2]
  refine (((hv.perm (h.divisible hi)).append_left _).append_right _).trans (.of_eq ?_)
  rw [allRules, horder, flatMap_append, flatMap_cons, append_assoc]

lemma step : Sorting b (before.length + 1) t := by
  have hi : i ∈ s.order := by simp [horder]
  have old {j} (hj : j ∈ before ∨ j ∈ after) (hone : s.OneType j) : t.OneType j := by
    have hmem := (h.others horder hv hj).1
    exact hone.of_subset hv.types hmem (hv.sublist j hmem).subset
  have new {j} hj : t.OneType j := hv.oneType h.orderly hi (h.divisible hi) hj
  constructor
  case orderly => exact hv.orderly
  case rules => exact (h.perm horder hv).trans h.rules
  case kept => exact fun id hid => (hv.types id (h.rules.symm.subset hid)).trans (h.kept id hid)
  case extensions =>
    intro j hj hext
    have hcases : (j ∈ before ∨ j ∈ after) ∨ j ∈ i :: copies := by
      rw [hv.order, mem_append, mem_append] at hj
      tauto
    rcases hcases with hother | hnew
    · have hmem := (h.others horder hv hother).1
      exact old hother (h.extensions j hmem ((hv.kind j hmem).1 hext))
    · exact new hnew
  case done =>
    intro j hj
    rw [hv.take_order, mem_append, mem_singleton] at hj
    rcases hj with hbefore | rfl
    · refine old (.inl hbefore) (h.done j ?_)
      rwa [horder, take_left]
    · exact new (.head _)

lemma load_lt : load (before.length + 1) t < load before.length s := by
  have hi : i ∈ s.order := by simp [horder]
  have same : after.map (fun j => max 1 (t.ruleIds j).length) = after.map fun j => max 1 (s.ruleIds j).length :=
    map_congr_left fun j hj => by rw [(h.others horder hv (.inr hj)).2]
  unfold load
  rw [hv.drop_order, horder, drop_left, map_append, sum_append, same]
  exact Nat.add_lt_add_right (hv.sum_copies (h.divisible hi)) _

end

end Sorting

lemma Act.visit_next (h : Orderly s) {n m}
    (hp : (visit splitByType n).on s = (.ok (some m), t)) : ∃ before i after copies,
      before.length = n ∧ m = n + 1 ∧ s.order = before ++ i :: after ∧ Visited s t before i copies after := by
  rcases visit_cases h n with ⟨-, hrun⟩ | ⟨before, i, after, copies, t', hlength, horder, hrun, hv⟩
  · rw [hrun] at hp
    cases hp
  · rw [hrun] at hp
    cases hp
    exact ⟨before, i, after, copies, hlength, rfl, horder, hv⟩

/-- A run that ends has visited all routines, and what every visit keeps holds in the end. -/
lemma Act.visits_invariant (Inv : Nat → Book → Prop) (horderly : ∀ {n s}, Inv n s → Orderly s)
    (hstep : ∀ {before i after copies s t}, Inv before.length s → s.order = before ++ i :: after →
      Visited s t before i copies after → Inv (before.length + 1) t) {r}
    (h : Inv 0 b) (hloop : loop (visit splitByType) 0 b = some (r, b')) :
    r = .ok () ∧ ∃ n, b'.order.length ≤ n ∧ Inv n b' := by
  have pass {n m s t} (hs : Inv n s) (hp : (visit splitByType n).on s = (.ok (some m), t)) : Inv m t := by
    obtain ⟨before, i, after, copies, rfl, rfl, horder, hv⟩ := visit_next (horderly hs) hp
    exact hstep hs horder hv
  obtain ⟨n, u, hu, hend⟩ := loop_invariant _ pass h hloop
  rcases visit_cases (horderly hu) n with ⟨hle, hrun⟩ | ⟨before, i, after, copies, t', -, -, hrun, -⟩
  · rw [hrun] at hend
    rcases hend with ⟨heq, rfl⟩ | ⟨f, heq, -⟩
    · cases heq
      exact ⟨rfl, n, hle, hu⟩
    · cases heq
  · rw [hrun] at hend
    rcases hend with ⟨heq, -⟩ | ⟨f, heq, -⟩ <;> cases heq

lemma Orderly.sorted (h : Orderly b) (hext : ∀ e ∈ b.order, b.IsExtension e → b.OneType e) :
    ∃ b', (forRoutines splitByType).on b = (.ok (), b') ∧ SortedByType b b' := by
  have start : Sorting b 0 b := ⟨h, .refl _, fun _ _ => rfl, hext, fun j hj => by cases hj⟩
  have pass {n m s t} (hs : Sorting b n s) (hp : (visit splitByType n).on s = (.ok (some m), t)) :
      Sorting b m t ∧ load m t < load n s := by
    obtain ⟨before, i, after, copies, rfl, rfl, horder, hv⟩ := visit_next hs.orderly hp
    exact ⟨hs.step horder hv, hs.load_lt horder hv⟩
  obtain ⟨⟨r, b'⟩, hloop⟩ := loop_ends _ load pass start
  obtain ⟨rfl, n, hle, hsorting⟩ := visits_invariant (Sorting b) Sorting.orderly Sorting.step start hloop
  refine ⟨b', forRoutines_eq_ok.2 hloop, fun j hj => commonType_eq (hsorting.done j ?_), hsorting.rules, hsorting.kept⟩
  rwa [take_of_length_le hle]

/-! ### Mixed extensions -/

def Book.MixedExtension (b : Book) (e : RoutineId) : Prop := b.IsExtension e ∧ ¬b.OneType e

lemma length_flatMap_lt {α β : Type} {l : List α} {f g : α → List β} (h : ∀ a ∈ l, (f a).Sublist (g a))
    {a} (ha : a ∈ l) (hne : f a ≠ g a) : (l.flatMap f).length < (l.flatMap g).length := by
  obtain ⟨front, back, rfl⟩ := append_of_mem ha
  have hfront := (Sublist.flatMap_right _ fun a ha => h a (mem_append_left _ ha)).length_le
  have hback := (Sublist.flatMap_right _ fun a ha =>
    h a (mem_append_right _ (.tail _ ha))).length_le
  have hlt : (f a).length < (g a).length :=
    Nat.lt_of_not_le fun hle => hne ((h a (by simp)).eq_of_length_le hle)
  simp only [flatMap_append, flatMap_cons, length_append]
  omega

namespace Visited
variable {before copies after : List RoutineId} {i : RoutineId}

section
variable (h : Visited b b' before i copies after)
include h

lemma mixedExtension_iff (hk : k ∈ b.order)
    (hkind : b'.IsExtension j ↔ b.IsExtension k) (hids : b'.ruleIds j = b.ruleIds k) :
    b'.MixedExtension j ↔ b.MixedExtension k := by
  refine and_congr hkind (not_congr (exists_congr fun type => ?_))
  rw [hids]
  refine forall₂_congr fun id hid => ?_
  rw [h.types id (mem_allRules.2 ⟨k, hk, hid⟩)]

/-- Unless it visits a mixed extension, a visit adds no rules; and it takes some away from every
extension that changes. -/
lemma length_le (horder : b.order = before ++ i :: after)
    (hi : ¬b.MixedExtension i) : b'.allRules.length ≤ b.allRules.length ∧
      ∀ e ∈ after, b'.ruleIds e ≠ b.ruleIds e → b'.allRules.length < b.allRules.length := by
  have hnot : b.OneType i ∨ ¬b.IsExtension i := by
    tauto
  have hmiddle := (h.perm hnot).length_eq
  have hfront := (Sublist.flatMap_right before fun j hj => h.sublist j (by simp [horder, hj])).length_le
  have hback (j) (hj : j ∈ after) : (b'.ruleIds j).Sublist (b.ruleIds j) := h.sublist j (by simp [horder, hj])
  have new : b'.allRules.length = (before.flatMap b'.ruleIds).length + (b.ruleIds i).length +
      (after.flatMap b'.ruleIds).length := by
    rw [h.allRules_eq, length_append, length_append, hmiddle]
  have old : b.allRules.length = (before.flatMap b.ruleIds).length + (b.ruleIds i).length +
      (after.flatMap b.ruleIds).length := by
    rw [allRules, horder, flatMap_append, flatMap_cons, length_append, length_append, Nat.add_assoc]
  refine ⟨?_, fun e he hne => ?_⟩
  · have := (Sublist.flatMap_right _ hback).length_le
    omega
  · have := length_flatMap_lt hback he hne
    omega

lemma next_mixed (horder : b.order = before ++ i :: after)
    (hi : b.MixedExtension i) : ∃ e, b'.order[before.length + 1]? = some e ∧ b'.MixedExtension e := by
  obtain ⟨j, rest, rfl, hext, hids⟩ := h.extension hi.2 hi.1
  refine ⟨j, ?_, (h.mixedExtension_iff (by simp [horder]) (iff_of_true hext hi.1) hids).2 hi⟩
  rw [h.order]
  simp

end

end Visited

/-- How a run that meets a mixed extension goes on: it has come to one, or it has lost rules, or
there is one to come. -/
structure Spoiled (b : Book) (n : Nat) (s : Book) : Prop where
  orderly : Orderly s
  ahead : (∃ e, s.order[n]? = some e ∧ s.MixedExtension e) ∨ s.allRules.length ≤ b.allRules.length ∧
    (s.allRules.length < b.allRules.length ∨ ∃ e ∈ s.order.drop n, s.MixedExtension e)

lemma Spoiled.step {before copies after} {i}
    (h : Spoiled b before.length s) (horder : s.order = before ++ i :: after)
    (hv : Visited s t before i copies after) : Spoiled b (before.length + 1) t := by
  refine ⟨hv.orderly, ?_⟩
  by_cases hmixed : s.MixedExtension i
  · exact .inl (hv.next_mixed horder hmixed)
  · have hat : s.order[before.length]? = some i := by simp [horder]
    obtain ⟨hle, hlt⟩ := hv.length_le horder hmixed
    rcases h.ahead with ⟨e, he, hmixed'⟩ | ⟨hold, hlost | ⟨e, he, hmixed'⟩⟩
    · rw [hat] at he
      cases he
      exact absurd hmixed' hmixed
    · exact .inr ⟨Nat.le_trans hle hold, .inl (Nat.lt_of_le_of_lt hle hlost)⟩
    · refine .inr ⟨Nat.le_trans hle hold, ?_⟩
      rw [horder, drop_left, mem_cons] at he
      have he : e ∈ after := he.resolve_left fun hei => hmixed (hei ▸ hmixed')
      have hmem : e ∈ s.order := by simp [horder, he]
      by_cases hids : t.ruleIds e = s.ruleIds e
      · refine .inr ⟨e, ?_, (hv.mixedExtension_iff hmem (hv.kind e hmem) hids).2 hmixed'⟩
        rw [hv.drop_order]
        exact mem_append_right _ he
      · exact .inl (Nat.lt_of_lt_of_le (hlt e he hids) hold)

/-- A run that comes to a mixed extension never ends: behind each one stands the next. -/
lemma Act.visits_endless (h : Orderly b) {n} {e} (he : b.order[n]? = some e)
    (hmixed : b.MixedExtension e) : loop (visit splitByType) n b = none := by
  let Stuck (n : Nat) (s : Book) : Prop := Orderly s ∧ ∃ e, s.order[n]? = some e ∧ s.MixedExtension e
  refine loop_endless Stuck (fun {n s} hs => ?_) ⟨h, e, he, hmixed⟩
  obtain ⟨horderly, e, he, hmixed⟩ := hs
  rcases visit_cases horderly n with ⟨hle, -⟩ | ⟨before, i, after, copies, t, rfl, horder, hrun, hv⟩
  · rw [List.getElem?_eq_none hle] at he
    cases he
  · obtain rfl : i = e := by simpa [horder] using he
    exact ⟨_, t, hrun, hv.orderly, hv.next_mixed horder hmixed⟩

lemma SortedByType.oneType (h : Orderly b)
    (hrun : (forRoutines splitByType).on b = (.ok (), b')) (hsorted : SortedByType b b') {e}
    (he : e ∈ b.order) (hext : b.IsExtension e) : b.OneType e := by
  refine Classical.byContradiction fun hmixed => ?_
  have start : Spoiled b 0 b := ⟨h, .inr ⟨Nat.le_refl _, .inr ⟨e, he, hext, hmixed⟩⟩⟩
  obtain ⟨-, n, hle, hspoiled⟩ := visits_invariant (Spoiled b) Spoiled.orderly Spoiled.step start
    (forRoutines_eq_ok.1 hrun)
  rcases hspoiled.ahead with ⟨e, he, -⟩ | ⟨-, hlost | ⟨e, he, -⟩⟩
  · rw [List.getElem?_eq_none hle] at he
    cases he
  · rw [hsorted.rules.length_eq] at hlost
    exact Nat.lt_irrefl _ hlost
  · rw [drop_eq_nil_of_le hle] at he
    cases he

/-- **Splitting all routines by type sorts a book exactly when** the rules of each extension in
force have one type. -/
theorem splitByType_sorts_iff {b : Book} (h : Orderly b) :
    (∃ b', (Act.forRoutines Act.splitByType).on b = (.ok (), b') ∧ SortedByType b b') ↔
      ∀ e ∈ b.order, b.IsExtension e → b.OneType e := by
  constructor
  · rintro ⟨b', hrun, hsorted⟩ e he hext
    exact hsorted.oneType h hrun he hext
  · exact h.sorted

section Sample

lemma Book.callsWithin_of_rules
    (h : ∀ r ∈ b.rules, ∀ d ∈ dependencies r, d.all (· < b.routines.size)) : b.CallsWithin := by
  intro id k hk
  simpa using forall_rule h (forall_mem_nil _) id _ hk

lemma Orderly.of_checks (h : b.OneExtension e)
    (hcalls : ∀ r ∈ b.rules, ∀ d ∈ dependencies r, d.all (· < b.routines.size))
    (hnodup : b.order.Nodup) (hforce : ∀ id ∈ b.allRules, none ∉ dependencies (b.rule id) ∧
      none ∉ (b.rule id).calls.getD [] ∧ (b.lookupType (b.rule id)).isOk) : Orderly b where
  nodup := hnodup
  within := h.2.1
  layered := ⟨_, h.layered⟩
  coherent := coherent_of_ungrouped h.2.2.2
  calls := callsWithin_of_rules hcalls
  resolved id hid := (hforce id hid).1
  slots id hid := (hforce id hid).2.1
  typed id hid := exists_of_isOk (hforce id hid).2.2

/-- The chain that calls the mixed routine is in force alone and in an extension. -/
def layeredBook : Book :=
  { mixedBook with
    routines := mixedBook.routines.push { name := some "outer", content := .extension [1] }
    order := [1, 0, 2] }

theorem splitByType_sorts_layered : Orderly layeredBook ∧
    ∃ b', (Act.forRoutines Act.splitByType).on layeredBook = (.ok (), b') ∧ SortedByType layeredBook b' := by
  have orderly : Orderly layeredBook :=
    .of_checks (by decide : OneExtension _ 2) (by decide) (by decide) (by decide)
  refine ⟨orderly, (splitByType_sorts_iff orderly).2 fun e he hext => ?_⟩
  obtain rfl : e = 2 := by
    obtain ⟨rs, hrs⟩ := hext
    obtain rfl | rfl | rfl : e = 1 ∨ e = 0 ∨ e = 2 := by simpa [layeredBook] using he
    · cases hrs
    · cases hrs
    · rfl
  refine ⟨some 6, fun id hid => ?_⟩
  obtain rfl : id = 3 := List.mem_singleton.1 hid
  rfl

/-- An extension and the mixed routine that it holds, both in force. -/
def listedBook : Book := { extendedBook with order := [0, 1] }

/-- **Mixed extensions are not sorted.** Alone in force, an extension makes the run endless. With
the routine that it holds, it loses rules when that one is split. -/
theorem splitByType_mixed_extension : (Orderly extendedBook ∧ loop (Act.visit Act.splitByType) 0 extendedBook = none) ∧
      Orderly listedBook ∧
        ¬∃ b', (Act.forRoutines Act.splitByType).on listedBook = (.ok (), b') ∧ SortedByType listedBook b' := by
  -- The types of the rules do not depend on what is in force.
  have mixed : ¬extendedBook.OneType 1 := by
    rintro ⟨type, htype⟩
    have single : some 1 = type := Except.ok.inj (htype 0 (by decide))
    have ligature : some 4 = type := Except.ok.inj (htype 1 (by decide))
    exact absurd (single.trans ligature.symm) (by decide)
  have endless : Orderly extendedBook :=
    .of_checks (by decide : OneExtension _ 1) (by decide) (by decide) (by decide)
  have listed : Orderly listedBook :=
    .of_checks (by decide : OneExtension _ 1) (by decide) (by decide) (by decide)
  refine ⟨⟨endless, Act.visits_endless endless rfl ⟨⟨_, rfl⟩, mixed⟩⟩, listed, fun ⟨b', hrun, hsorted⟩ => ?_⟩
  exact mixed (hsorted.oneType listed hrun (by decide : 1 ∈ listedBook.order) ⟨_, rfl⟩)

end Sample

end GlyphRules
