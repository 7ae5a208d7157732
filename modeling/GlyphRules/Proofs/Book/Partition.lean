import Mathlib.Data.List.Count
import Mathlib.Data.List.Nodup
import GlyphRules.Proofs.Book.Pieces
import GlyphRules.Proofs.Book.Redirect
import GlyphRules.Proofs.Book.Usage

/-! Splitting a routine.

After a split (`Split`, `Act.partition_on`) the routine and its copies take the groups of its rules,
stand in its place, and are called where it was. This is what a split is for (`Partitioned`), but
for two cases: an extension keeps the rules of its routines, and chains with their calls in common
are redirected more than once (`partition_partitions_iff`). -/
namespace GlyphRules

open Step List Rule Lookup Calls Book Act Routine

variable {i j : RoutineId} {b : Book} {ids : List RuleId}

/-! ### Dividing the rules -/

namespace Book

def divided (b : Book) (i : RoutineId) (index : Nat) (g : List RuleId) (groups : List (List RuleId)) : Book :=
  { (b.append (groups.map (b.routine i).withRules)).setRules i g with
    order := b.order.take index ++ i :: List.range' b.routines.size groups.length ++ b.order.drop (index + 1) }

abbrev parts (b : Book) (i : RoutineId) (groups : List (List RuleId)) : List RoutineId :=
  i :: List.range' b.routines.size groups.length

section Divided
variable (index : Nat) (g : List RuleId) (groups : List (List RuleId))

lemma routine_divided_self (hi : i < b.routines.size) :
    (b.divided i index g groups).routine i = (b.routine i).withRules g := by
  have hlt : i < (b.append (groups.map (b.routine i).withRules)).routines.size := by
    simp only [append, Array.size_append]
    exact Nat.lt_add_right _ hi
  exact (routine_alterRoutine_self hlt _).trans (congrArg (·.withRules g) (routine_append_left hi _))

lemma routine_divided_ne (hj : j ≠ i) :
    (b.divided i index g groups).routine j = (b.append (groups.map (b.routine i).withRules)).routine j :=
  routine_alterRoutine_ne _ hj _

lemma map_routine_divided (hi : i < b.routines.size) : (b.parts i groups).map (b.divided i index g groups).routine =
      (g :: groups).map (b.routine i).withRules := by
  rw [map_cons, routine_divided_self index g groups hi]
  congr 1
  refine ext_getElem (by simp) fun n h₁ h₂ => ?_
  have hn : n < groups.length := by simpa using h₂
  have hne : b.routines.size + n ≠ i := Nat.ne_of_gt (Nat.lt_add_right n hi)
  rw [getElem_map, getElem_range', Nat.one_mul, routine_divided_ne index g groups hne, routine_eq, append,
    Array.getElem?_append_right (Nat.le_add_right _ _)]
  simp [hn]

lemma routine_divided_other (hj : j ∉ b.parts i groups) : (b.divided i index g groups).routine j = b.routine j := by
  obtain ⟨hne, hcopy⟩ := ne_and_not_mem_of_not_mem_cons hj
  rw [routine_divided_ne index g groups hne]
  by_cases hlt : j < b.routines.size
  · exact routine_append_left hlt _
  · have hsize : b.routines.size + groups.length ≤ j := by
      rw [mem_range'_1] at hcopy
      exact Nat.le_of_not_lt fun h => hcopy ⟨Nat.le_of_not_lt hlt, h⟩
    rw [routine_of_size_le (Nat.le_of_not_lt hlt), routine_of_size_le]
    simpa [append] using hsize

end Divided
end Book

namespace Act

lemma copyWith_on (b) (i) (ids) :
    (copyWith i ids).on b = (.ok b.routines.size, b.append [(b.routine i).withRules ids]) := by
  have pushed : (b.routines.push (b.routine i)).modify b.routines.size (·.withRules ids) =
      b.routines ++ [(b.routine i).withRules ids].toArray := by
    refine Array.ext_getElem? fun j => ?_
    simp only [Array.getElem?_modify, Array.getElem?_push, Array.getElem?_append]
    rcases Nat.lt_trichotomy j b.routines.size with h | rfl | h
    · simp [h, Nat.ne_of_lt h, Nat.ne_of_gt h]
    · simp
    · have : j - b.routines.size ≠ 0 := by omega
      simp [Nat.ne_of_gt h, Nat.lt_asymm h, this]
  rw [append, ← pushed]
  rfl

lemma mapM_copyWith_on (hi : i < b.routines.size) (groups : List (List RuleId)) : (groups.mapM (copyWith i)).on b =
      (.ok (List.range' b.routines.size groups.length), b.append (groups.map (b.routine i).withRules)) := by
  induction groups generalizing b with
  | nil => simp [append]
  | cons g groups ih =>
    have size : (b.append [(b.routine i).withRules g]).routines.size = b.routines.size + 1 := by
      simp [append]
    have copied := ih (b := b.append [(b.routine i).withRules g]) (size ▸ Nat.lt_succ_of_lt hi)
    rw [routine_append_left hi] at copied
    rw [mapM_cons, on_bind_ok (copyWith_on b i g), on_bind_ok copied]
    simp [append, List.range'_succ]

end Act

/-! ### The split -/

/-- The chains in force that call a routine. -/
def Book.callers (b : Book) (i : RoutineId) : List RuleId :=
  (b.allRules.filter fun u => (dependencies (b.rule u)).contains (some i)).eraseDups

lemma Book.mem_callers : u ∈ b.callers i ↔ u ∈ b.allRules ∧ some i ∈ dependencies (b.rule u) := by
  simp [callers]

lemma chaining_of_mem {i} (h : i ∈ dependencies r) : ∃ c, r.body = .chaining c := by
  unfold dependencies at h
  split at h
  · next c hc => exact ⟨c, hc⟩
  · cases h

/-- A routine that can be split: it is in force once and has rules; the calls in force are
resolved, its callers leave no position empty, and chains of one group call the same. -/
structure Splittable (b : Book) (i : RoutineId) : Prop where
  nodup : b.order.Nodup
  mem : i ∈ b.order
  nonempty : b.ruleIds i ≠ []
  resolved : ∀ id ∈ b.allRules, none ∉ Book.dependencies (b.rule id)
  slots : ∀ u ∈ b.callers i, none ∉ (b.rule u).calls.getD []
  coherent : b.Coherent

structure Divisible (b : Book) (i : RoutineId) : Prop where
  mem : i ∈ b.order
  nonempty : b.ruleIds i ≠ []
  resolved : ∀ id ∈ b.allRules, none ∉ Book.dependencies (b.rule id)
  coherent : b.Coherent

lemma Splittable.divisible (h : Splittable b i) : Divisible b i :=
  ⟨h.mem, h.nonempty, h.resolved, h.coherent⟩

structure Split (b b' : Book) (i : RoutineId) (groups : List (List RuleId)) (all : List RoutineId) : Prop where
  all_eq : all = i :: List.range' b.routines.size (groups.length - 1)
  size : b'.routines.size = b.routines.size + (groups.length - 1)
  routines : all.map (fun j => (b'.routine j).unmarked) = groups.map fun g => ((b.routine i).withRules g).unmarked
  others : ∀ j, j ∉ all → (b'.routine j).unmarked = (b.routine j).unmarked
  order : b'.order = b.order.flatMap fun j => if j = i then all else [j]
  features : b'.features = b.features.map fun (tag, l) => (tag, l.flatMap (callEach (b.routine i).name i all))
  rule : ∀ id, b'.rule id = (Rule.mapCalls (·.flatMap (callEach (b.routine i).name i all)))^[
    (b.callers i).countP (b.shares · id)] (b.rule id)
  coherent : b'.Coherent

lemma unmarked_withRules (r : Routine) (ids) :
    (r.withRules ids).unmarked = r.unmarked.withRules ids := by
  obtain ⟨_, content, _, _, _, _, _, _, _, _, _, _⟩ := r
  cases content <;> rfl

lemma name_withRules (r : Routine) (ids) : (r.withRules ids).name = r.name := by
  unfold withRules
  split <;> rfl

lemma replace_of_not_mem {order : List RoutineId} (hi : i ∉ order) (all) :
    (order.flatMap fun j => if j = i then all else [j]) = order := by
  refine (flatMap_congr fun j hj => ?_).trans (flatMap_singleton' order)
  rw [if_neg]
  rintro rfl
  exact hi hj

lemma replace_idxOf {order : List RoutineId} (hnodup : order.Nodup) (hi : i ∈ order) (all) :
    order.take (order.idxOf i) ++ all ++ order.drop (order.idxOf i + 1) =
      order.flatMap fun j => if j = i then all else [j] := by
  induction order with
  | nil => cases hi
  | cons j order ih =>
    obtain ⟨hj, hnodup⟩ := nodup_cons.1 hnodup
    by_cases h : j = i
    · subst h
      simp [replace_of_not_mem hj]
    · have hi : i ∈ order := (mem_cons.1 hi).resolve_left (Ne.symm h)
      simp [h, ← ih hnodup hi]

/-- Features are given the new calls by the names of the new routines. -/
def Book.callAll (b : Book) (name : Option String) (i : RoutineId) (all : List RoutineId) : Book :=
  { b with features := b.features.map fun (tag, l) => (tag, l.flatMap (callEach name i all)) }

section Partition
variable {b₁ : Book}

lemma Marked.names_divided (h : Marked b b₁) (hi : i < b.routines.size) (index) (g)
    (groups) (hj : j ∈ b₁.parts i groups) :
    ((b₁.divided i index g groups).routine j).name = (b.routine i).name := by
  have hmem : (b₁.divided i index g groups).routine j ∈ (b₁.parts i groups).map (b₁.divided i index g groups).routine :=
    mem_map_of_mem hj
  rw [map_routine_divided index g groups (h.size ▸ hi)] at hmem
  obtain ⟨g', -, hg'⟩ := mem_map.1 hmem
  rw [← hg', name_withRules]
  exact congrArg (·.name) (h.routine i)

lemma Marked.coherent_divided (h : Marked b b₁) (hb : b.Coherent) (i) (index)
    (g) (groups) : (b₁.divided i index g groups).Coherent := by
  have rule (id) : (b₁.divided i index g groups).rule id = b.rule id := h.rule id
  intro u id
  rw [rule, rule]
  exact hb u id

lemma split_of_divided (h : Splittable b i) (marked : Marked b b₁) {g}
    {groups} {users} (husers : users.Perm (b.callers i))
    (redirected : Redirected (b₁.divided i (b.order.idxOf i) g groups) b' (·.flatMap
      (callEach (b.routine i).name i (b₁.parts i groups))) users) :
    Split b (b'.callAll (b.routine i).name i (b₁.parts i groups)) i (g :: groups) (b₁.parts i groups) := by
  have hlt : i < b.routines.size := lt_of_ruleIds h.nonempty
  have only : OnlyRules (b₁.divided i (b.order.idxOf i) g groups) b' := redirected.rest
  have rule (id) : (b₁.divided i (b.order.idxOf i) g groups).rule id = b.rule id := marked.rule id
  refine ⟨?_, ?_, ?_, ?_, ?_, ?_, ?_, redirected.coherent⟩
  · rw [parts, marked.size]
    rfl
  · show b'.routines.size = _
    simp [only.routines, divided, setRules, append, marked.size]
  · have same : (b'.callAll (b.routine i).name i (b₁.parts i groups)).routine =
        (b₁.divided i (b.order.idxOf i) g groups).routine := funext only.routine
    have divided := congrArg (List.map unmarked) (map_routine_divided (b.order.idxOf i) g groups
      (marked.size ▸ hlt))
    rw [map_map, map_map] at divided
    rw [same]
    refine divided.trans (map_congr_left fun g _ => ?_)
    rw [Function.comp, unmarked_withRules, unmarked_withRules, marked.routine]
  · intro j hj
    refine (congrArg unmarked (only.routine j)).trans ?_
    rw [routine_divided_other _ _ _ hj, marked.routine]
  · refine only.order.trans ?_
    rw [← replace_idxOf h.nodup h.mem]
    simp only [divided, marked.order]
  · exact congrArg _ (only.features.trans marked.features)
  · intro id
    have shares (u) : (b₁.divided i (b.order.idxOf i) g groups).shares u id = b.shares u id := by
      unfold shares
      rw [rule, rule]
    refine (redirected.rule id).trans ?_
    rw [rule, husers.countP_eq]
    simp only [shares]

end Partition

section Run
variable {β : Type} [BEq β] [LawfulBEq β] (factor : Book → Rule → Except Fault β) (value : RuleId → β)

/-- Splitting comes to the callers: by then their uses are counted and the rules divided. -/
lemma Act.partition_divides (h : Divisible b i)
    (hfactor : ∀ b', Marked b b' → ∀ id ∈ b.ruleIds i, factor b' (b.rule id) = .ok (value id)) :
    ∃ (b₁ : Book) (users : List RuleId) (g : List RuleId) (groups : List (List RuleId)),
      let all := b₁.parts i groups
      Marked b b₁ ∧ users.Perm (b.callers i) ∧ pieces value (b.ruleIds i) = g :: groups ∧
      (partition i factor).on b =
        (redirectAll i all users >>= fun _ => pure (some all)).on (b₁.divided i (b.order.idxOf i) g groups) := by
  have hlt : i < b.routines.size := lt_of_ruleIds h.nonempty
  let b₀ : Book := { b with usageMarked := false }
  have marked₀ : Marked b b₀ := ⟨rfl, rfl, fun _ => rfl⟩
  obtain ⟨b₁, h₁, marked₁, users⟩ := markUsage_on (b := b₀) rfl fun id hid => by
    exact h.resolved id (marked₀.allRules ▸ hid)
  have marked : Marked b b₁ := marked₀.trans marked₁
  obtain ⟨hnodup, husers⟩ := users i h.mem hlt
  have callers : (b₁.routine i).usedIn.Perm (b.callers i) := by
    refine (perm_ext_iff_of_nodup hnodup (nodup_eraseDups _)).2 fun x => ?_
    rw [husers, marked₀.allRules, marked₀.rule, ← mem_callers]
    rfl
  have index : b₁.indexOf? i = some (b.order.idxOf i) := by
    rw [indexOf?, marked.order]
    obtain ⟨k, hk⟩ := Option.isSome_iff_exists.1 (isSome_idxOf?.2 h.mem)
    rw [idxOf_eq_getD_idxOf?, hk]
    rfl
  have factors : (b.ruleIds i).mapM (fun id => do return (id, ← factor b₁ (b₁.rule id))) =
      .ok ((b.ruleIds i).map fun id => (id, value id)) := by
    refine mapM_ok fun id hid => ?_
    rw [marked.rule, hfactor b₁ marked id hid]
    rfl
  obtain ⟨id, ids, hids⟩ := exists_cons_of_ne_nil h.nonempty
  obtain ⟨g, groups, hgroups⟩ : ∃ g groups, pieces value (b.ruleIds i) = g :: groups := by
    rw [hids, pieces_cons]
    exact ⟨_, _, rfl⟩
  have divided : (divide i (b.order.idxOf i) (g :: groups)).on b₁ =
      (.ok (b₁.parts i groups), b₁.divided i (b.order.idxOf i) g groups) := by
    rw [divide, drop_one, tail_cons, on_bind_ok (mapM_copyWith_on (marked.size ▸ hlt) groups), on_bind_ok (on_modify _ _)]
    rfl
  refine ⟨b₁, (b₁.routine i).usedIn, g, groups, marked, callers, hgroups, ?_⟩
  rw [partition, on_get_bind]
  simp only [hids]
  rw [on_bind_ok (on_modify _ b), on_bind_ok (h₁), on_get_bind]
  simp only [index]
  rw [← hids, factors, on_bind_ok (on_ofExcept _ b₁), groupBy_pieces, hgroups,
    on_bind_ok divided]

lemma Act.partition_redirects (h : Divisible b i) (hslots : ∀ u ∈ b.callers i, none ∉ (b.rule u).calls.getD [])
    (hfactor : ∀ b', Marked b b' → ∀ id ∈ b.ruleIds i, factor b' (b.rule id) = .ok (value id)) :
    ∃ (b₁ b₂ : Book) (users : List RuleId) (g : List RuleId) (groups : List (List RuleId)),
      let all := b₁.parts i groups
      Marked b b₁ ∧ users.Perm (b.callers i) ∧ pieces value (b.ruleIds i) = g :: groups ∧
      Redirected (b₁.divided i (b.order.idxOf i) g groups) b₂ (·.flatMap (callEach (b.routine i).name i all)) users ∧
      (partition i factor).on b = (.ok (some all), b₂.callAll (b.routine i).name i all) := by
  obtain ⟨b₁, users, g, groups, marked, callers, hgroups, hrun⟩ := partition_divides factor value h hfactor
  have names {j} (hj : j ∈ b₁.parts i groups) :=
    marked.names_divided (lt_of_ruleIds h.nonempty) (b.order.idxOf i) g groups hj
  have chains (u) (hu : u ∈ users) :
      ∃ c, ((b₁.divided i (b.order.idxOf i) g groups).rule u).body = .chaining c ∧ none ∉ c.calls := by
    have hcaller : u ∈ b.callers i := callers.subset hu
    obtain ⟨c, hc⟩ := chaining_of_mem (mem_callers.1 hcaller).2
    have := hslots u hcaller
    rw [calls_chaining hc] at this
    exact ⟨c, (congrArg (·.body) (marked.rule u)).trans hc, this⟩
  obtain ⟨b₂, h₂, redirected⟩ := forM_redirect_on i (marked.coherent_divided h.coherent i _ g groups) chains
    fun _ => names
  have names₂ (j) (hj : j ∈ b₁.parts i groups) : (b₂.routine j).name = (b.routine i).name := by
    rw [OnlyRules.routine redirected.rest]
    exact names hj
  refine ⟨b₁, b₂, users, g, groups, marked, callers, hgroups, redirected, ?_⟩
  have features : (redirectAll i (b₁.parts i groups) users).on (b₁.divided i (b.order.idxOf i) g groups) =
        (.ok (), b₂.callAll (b.routine i).name i (b₁.parts i groups)) := by
    rw [redirectAll, on_bind_ok h₂, on_modify, replaceCall_eq names₂]
    rfl
  rw [hrun, on_bind_ok features]
  rfl

/-- **Splitting a routine succeeds**, and divides its rules by the values of the factor. -/
lemma Act.partition_on (h : Splittable b i)
    (hfactor : ∀ b', Marked b b' → ∀ id ∈ b.ruleIds i, factor b' (b.rule id) = .ok (value id)) :
    ∃ all b', (partition i factor).on b = (.ok (some all), b') ∧ Split b b' i (pieces value (b.ruleIds i)) all := by
  obtain ⟨b₁, b₂, users, g, groups, marked, callers, hgroups, redirected, hrun⟩ :=
    partition_redirects factor value h.divisible h.slots hfactor
  exact ⟨_, _, hrun, hgroups ▸ split_of_divided h marked callers redirected⟩

end Run

/-! ### Calls that grow -/

section Growing
variable {all : List RoutineId}

lemma Calls.entries_map (c : Calls) (f) :
    entries (c.map (Option.map (·.flatMap f))) = c.entries.flatMap f := by
  unfold entries
  induction c with
  | nil => rfl
  | cons slot c ih =>
    cases slot with
    | none | some ls => simpa using ih

lemma map_routine?_callEach (name) (i) (all) (ls : List Lookup) :
    (ls.flatMap (callEach name i all)).map routine? =
      (ls.map routine?).flatMap fun d => if d = some i then all.map some else [d] := by
  rw [map_flatMap, flatMap_map]
  refine flatMap_congr fun l _ => ?_
  unfold callEach
  split
  · rw [map_map]
    rfl
  · rfl

lemma dependencies_mapCalls (name) (i) (all) (r) :
    dependencies (r.mapCalls (·.flatMap (callEach name i all))) =
      (dependencies r).flatMap fun d => if d = some i then all.map some else [d] := by
  obtain ⟨body, -, -, -, -, -⟩ := r
  cases body with
  | chaining c =>
    show (entries (c.calls.map _)).map routine? = (c.calls.entries.map routine?).flatMap _
    rw [entries_map, map_routine?_callEach]
  | _ => rfl

lemma count_replaced (h : all.count i = 1) (ds : List (Option RoutineId)) :
    (ds.flatMap fun d => if d = some i then all.map some else [d]).count (some i) = ds.count (some i) := by
  induction ds with
  | nil => rfl
  | cons d ds ih =>
    rw [flatMap_cons, count_append, ih]
    by_cases hd : d = some i
    · rw [if_pos hd, count_map_of_injective all some fun _ _ => Option.some.inj, h, hd]
      simp [Nat.add_comm]
    · simp [hd]

lemma length_replaced (h : all.length = n + 1) (ds : List (Option RoutineId)) :
    (ds.flatMap fun d => if d = some i then all.map some else [d]).length = ds.length + ds.count (some i) * n := by
  induction ds with
  | nil => simp
  | cons d ds ih =>
    rw [flatMap_cons, length_append, count_cons]
    by_cases hd : d = some i
    · rw [if_pos hd, length_map, hd, length_cons, if_pos (beq_self_eq_true _), Nat.succ_mul]
      omega
    · rw [if_neg hd, if_neg (by simpa using hd), length_singleton, length_cons]
      simp only [Nat.add_zero]
      omega

/-- A chain whose calls are redirected again and again calls more each time. -/
lemma length_iterate_mapCalls (name) {n} (hcount : all.count i = 1)
    (hlength : all.length = n + 1) (k) (r) :
    (dependencies ((mapCalls (·.flatMap (callEach name i all)))^[k] r)).length =
        (dependencies r).length + k * ((dependencies r).count (some i) * n) := by
  induction k generalizing r with
  | zero => simp
  | succ k ih =>
    rw [Function.iterate_succ_apply, ih, dependencies_mapCalls, count_replaced hcount, length_replaced hlength,
      Nat.succ_mul]
    omega

end Growing

/-! ### What a split should be -/

/-- **A routine is partitioned**: the routine and new copies of it hold the pieces of its rules,
equal in all else; they stand in its place, and every feature and chain that called it calls
all of them instead. -/
structure Partitioned {β : Type} [BEq β] (b b' : Book) (i : RoutineId) (value : RuleId → β)
    (all : List RoutineId) : Prop where
  first : all.head? = some i
  fresh : all.Nodup ∧ ∀ j ∈ all.tail, b.routines.size ≤ j
  rules : all.map b'.ruleIds = pieces value (b.ruleIds i)
  fields : ∀ j ∈ all, { b'.routine j with content := .missing, usedIn := [] } =
    { b.routine i with content := .missing, usedIn := [] }
  others : ∀ j, j ∉ all → (b'.routine j).unmarked = (b.routine j).unmarked
  order : b'.order = b.order.flatMap fun j => if j = i then all else [j]
  features : b'.features = b.features.map fun (tag, l) => (tag, l.flatMap (callEach (b.routine i).name i all))
  calls : ∀ id ∈ b.allRules, b'.rule id = (b.rule id).mapCalls (·.flatMap (callEach (b.routine i).name i all))

namespace Split
variable {b' : Book} {groups : List (List RuleId)} {all : List RoutineId}

section
variable (h : Split b b' i groups all)
include h

lemma nodup (hi : i < b.routines.size) : all.Nodup := by
  rw [h.all_eq, nodup_cons, mem_range'_1]
  exact ⟨fun hmem => Nat.not_le_of_lt hi hmem.1, nodup_range'⟩

lemma mem_all : j ∈ all ↔ j = i ∨ b.routines.size ≤ j ∧ j < b'.routines.size := by
  rw [h.all_eq, mem_cons, mem_range'_1, h.size]

lemma fields (hj : j ∈ all) : ∃ g ∈ groups, (b'.routine j).unmarked = ((b.routine i).withRules g).unmarked := by
  have : (b'.routine j).unmarked ∈ all.map fun j => (b'.routine j).unmarked := mem_map.2 ⟨j, hj, rfl⟩
  rw [h.routines] at this
  obtain ⟨g, hg, heq⟩ := mem_map.1 this
  exact ⟨g, hg, heq.symm⟩

lemma content_other (hj : j ∉ all) :
    (b'.routine j).content = (b.routine j).content := congrArg (·.content) (h.others j hj)

lemma content_rules (hcontent : (b.routine i).content = .rules ids) (hj : j ∈ all) :
    ∃ g ∈ groups, (b'.routine j).content = .rules g := by
  obtain ⟨g, hg, heq⟩ := h.fields hj
  exact ⟨g, hg, (congrArg (·.content) heq).trans (content_withRules hcontent g)⟩

lemma content_copy (hcontent : ∀ ids, (b.routine i).content ≠ .rules ids)
    (hj : j ∈ all) : (b'.routine j).content = (b.routine i).content := by
  obtain ⟨g, -, heq⟩ := h.fields hj
  rw [withRules_of_ne hcontent] at heq
  exact congrArg (·.content) heq

lemma rule_of_not_mem {id} (hid : some i ∉ dependencies (b.rule id)) : b'.rule id = b.rule id := by
  rw [h.rule]
  exact Function.iterate_fixed (mapCalls_of_not_mem hid _ _) _

lemma map_ruleIds (hcontent : (b.routine i).content = .rules ids) : all.map b'.ruleIds = groups := by
  let own (r : Routine) : List RuleId :=
    match r.content with
    | .rules ids => ids
    | _ => []
  calc all.map b'.ruleIds = (all.map fun j => (b'.routine j).unmarked).map own := by
        rw [map_map]
        refine map_congr_left fun j hj => ?_
        obtain ⟨g, -, hg⟩ := h.content_rules hcontent hj
        rw [ruleIds_rules hg]
        simp [own, unmarked, hg]
    _ = groups := by
        rw [h.routines, map_map]
        refine (map_congr_left fun g _ => ?_).trans (map_id groups)
        simp [own, unmarked, content_withRules hcontent]

end

lemma ruleIds_of_single (h : Split b b' i [b.ruleIds i] all) (j) : b'.ruleIds j = b.ruleIds j := by
  have content (j) : (b'.routine j).content = (b.routine j).content := by
    by_cases hj : j ∈ all
    · obtain rfl : j = i := by simpa [h.all_eq] using hj
      by_cases hcontent : ∃ ids, (b.routine j).content = .rules ids
      · obtain ⟨ids, hids⟩ := hcontent
        obtain ⟨g, hg, hcontent⟩ := h.content_rules hids hj
        rw [hcontent, mem_singleton.1 hg, ruleIds_rules hids, hids]
      · exact h.content_copy (not_exists.1 hcontent) hj
    · exact h.content_other hj
  exact ruleIds_of_content h.size content j

lemma ruleIds_eq (h : Split b b' i groups all) (hcontent : ∀ ids, (b.routine i).content ≠ .rules ids) (hj : j ∈ all) :
    b'.ruleIds j = b'.ruleIds i := by
  have hi := h.content_copy hcontent (h.mem_all.2 (.inl rfl))
  unfold ruleIds ruleIdsWithin
  rw [h.content_copy hcontent hj, hi]

end Split

lemma mapCalls_idem (name) (i) (r : Rule) :
    (r.mapCalls (·.flatMap (callEach name i [i]))).mapCalls (·.flatMap (callEach name i [i])) =
      r.mapCalls (·.flatMap (callEach name i [i])) := by
  have again (ls : List Lookup) : (ls.flatMap (callEach name i [i])).flatMap (callEach name i [i]) =
      ls.flatMap (callEach name i [i]) := by
    rw [flatMap_assoc]
    refine flatMap_congr fun l _ => ?_
    by_cases hl : l.routine? = some i
    · rw [show callEach name i [i] l = [.ref ⟨some name, some i⟩] from if_pos hl, flatMap_singleton]
      exact if_pos rfl
    · rw [show callEach name i [i] l = [l] from if_neg hl, flatMap_singleton]
      exact if_neg hl
  obtain ⟨body, -, -, -, -, -⟩ := r
  cases body with
  | chaining c =>
    simp only [mapCalls, map_map, Function.comp_def, Option.map_map, again]
  | _ => rfl

section Iff
variable {β : Type} [BEq β] [LawfulBEq β] {b' : Book} {all : List RoutineId} {value : RuleId → β}

omit [LawfulBEq β] in
lemma Split.partitioned {groups : List (List RuleId)} (hs : Splittable b i) (h : Split b b' i groups all)
    (hrules : all.map b'.ruleIds = pieces value (b.ruleIds i))
    (hcalls : ∀ id ∈ b.callers i, b'.rule id = (b.rule id).mapCalls (·.flatMap (callEach (b.routine i).name i all))) :
    Partitioned b b' i value all := by
  refine ⟨by rw [h.all_eq]; rfl, ⟨h.nodup (lt_of_ruleIds hs.nonempty), ?_⟩, hrules, ?_, h.others, h.order,
    h.features, ?_⟩
  · intro j hj
    rw [h.all_eq] at hj
    exact (mem_range'_1.1 hj).1
  · intro j hj
    obtain ⟨g, -, hg⟩ := h.fields hj
    have bare (r : Routine) : { r.withRules g with content := .missing, usedIn := [] } =
        { r with content := .missing, usedIn := [] } := by
      unfold withRules
      split <;> rfl
    rw [← bare (b.routine i)]
    exact congrArg (fun r => { r with content := .missing, usedIn := [] }) hg
  · intro id hid
    by_cases hcaller : some i ∈ dependencies (b.rule id)
    · exact hcalls id (mem_callers.2 ⟨hid, hcaller⟩)
    · rw [h.rule_of_not_mem hcaller, mapCalls_of_not_mem hcaller]

lemma Split.partitioned_of_eq (hs : Splittable b i) (h : Split b b' i (pieces value (b.ruleIds i)) all)
    (hvalue : ∀ id ∈ b.ruleIds i, ∀ id' ∈ b.ruleIds i, value id = value id') :
    Partitioned b b' i value all := by
  rw [pieces_of_eq hs.nonempty hvalue] at h
  have hall : all = [i] := h.all_eq
  subst hall
  refine h.partitioned hs ?_ fun id hid => ?_
  · rw [pieces_of_eq hs.nonempty hvalue, map_singleton, h.ruleIds_of_single]
  · have hpos : 0 < (b.callers i).countP (b.shares · id) :=
      countP_pos_iff.2 ⟨id, hid, shares_iff.2 (.inl rfl)⟩
    obtain ⟨k, hk⟩ := Nat.exists_eq_add_one.2 hpos
    rw [h.rule, hk]
    exact Function.iterate_fixed (mapCalls_idem (b.routine i).name i (b.rule id)) k

omit [LawfulBEq β] in
lemma Split.partitioned_of_rules (hs : Splittable b i) (h : Split b b' i (pieces value (b.ruleIds i)) all)
    (hcontent : (b.routine i).content = .rules ids)
    (hgroups : ∀ u ∈ b.callers i, ∀ u' ∈ b.callers i, b.shares u u' → u = u') : Partitioned b b' i value all := by
  refine h.partitioned hs (h.map_ruleIds hcontent) fun id hid => ?_
  have once : (b.callers i).countP (b.shares · id) = 1 := by
    calc (b.callers i).countP (b.shares · id) = (b.callers i).count id := by
          refine countP_congr fun u hu => ?_
          rw [beq_iff_eq]
          exact ⟨hgroups u hu id hid, fun he => shares_iff.2 (.inl he)⟩
      _ = 1 := count_eq_one_of_mem (nodup_eraseDups _) hid
  rw [h.rule, once]
  rfl

section
variable (hs : Splittable b i) (h : Split b b' i (pieces value (b.ruleIds i)) all) (hp : Partitioned b b' i value all)
  {id id' : RuleId} (hid : id ∈ b.ruleIds i) (hid' : id' ∈ b.ruleIds i) (hne : value id ≠ value id')
include hs h hp hid hid' hne

lemma Partitioned.content : ∃ ids, (b.routine i).content = .rules ids := by
  cases hcontent : (b.routine i).content with
  | rules ids => exact ⟨ids, rfl⟩
  | missing =>
    refine absurd ?_ hs.nonempty
    unfold ruleIds ruleIdsWithin
    rw [hcontent]
  | extension rs =>
    have same {piece} (hpiece : piece ∈ pieces value (b.ruleIds i)) : piece = b'.ruleIds i := by
      rw [← hp.rules] at hpiece
      obtain ⟨j, hj, rfl⟩ := mem_map.1 hpiece
      refine h.ruleIds_eq (fun ids hids => ?_) hj
      rw [hcontent] at hids
      cases hids
    obtain ⟨p, hp, hmem⟩ := exists_piece value hid
    obtain ⟨p', hp', hmem'⟩ := exists_piece value hid'
    rw [same hp, ← same hp'] at hmem
    exact absurd (((mem_piece hp').2 id hmem).2 id' hmem') hne

lemma Partitioned.callers (hu : u ∈ b.callers i) (hu' : u' ∈ b.callers i)
    (hshares : b.shares u u') : u = u' := by
  refine Classical.byContradiction fun hdiff => ?_
  have hi : i < b.routines.size := lt_of_ruleIds hs.nonempty
  obtain ⟨hmem, hcalls⟩ := mem_callers.1 hu
  have hcount : all.count i = 1 := by
    refine count_eq_one_of_mem (h.nodup hi) ?_
    rw [h.all_eq]
    exact mem_cons_self ..
  have hlength : all.length = (pieces value (b.ruleIds i)).length - 1 + 1 := by
    rw [h.all_eq]
    simp
  have hshares' : b.shares u' u = true := by
    rw [shares_iff] at hshares ⊢
    exact hshares.imp Eq.symm fun ⟨g, hg, hg'⟩ => ⟨g, hg', hg⟩
  have twice : 2 ≤ (b.callers i).countP (b.shares · u) := by
    rw [countP_eq_length_filter]
    exact two_le_length hdiff (mem_filter.2 ⟨hu, shares_iff.2 (.inl rfl)⟩) (mem_filter.2 ⟨hu', hshares'⟩)
  have two : 2 ≤ (pieces value (b.ruleIds i)).length := two_le_length_pieces hid hid' hne
  have same := (h.rule u).symm.trans (hp.calls u hmem)
  have grown := length_iterate_mapCalls (b.routine i).name hcount hlength
    ((b.callers i).countP (b.shares · u)) (b.rule u)
  have once := length_iterate_mapCalls (b.routine i).name hcount hlength 1 (b.rule u)
  rw [same] at grown
  have hpos : 0 < (dependencies (b.rule u)).count (some i) * ((pieces value (b.ruleIds i)).length - 1) :=
    Nat.mul_pos (count_pos_iff.2 hcalls) (by omega)
  have : (b.callers i).countP (b.shares · u) = 1 :=
    Nat.eq_of_mul_eq_mul_right hpos (Nat.add_left_cancel (grown.symm.trans once))
  omega

end

end Iff

/-- **Splitting partitions a routine exactly when** its rules have one value, or it is a plain
routine of which no two callers have their calls in common. -/
theorem partition_partitions_iff {β : Type} [DecidableEq β] (f : Rule → β) {b : Book} {i : RoutineId}
    (h : Splittable b i) : ∃ all b', (Act.partition i fun _ r => .ok (f r)).on b = (.ok (some all), b') ∧
      (Partitioned b b' i (fun id => f (b.rule id)) all ↔
        (∀ id ∈ b.ruleIds i, ∀ id' ∈ b.ruleIds i, f (b.rule id) = f (b.rule id')) ∨
        (∃ ids, (b.routine i).content = .rules ids) ∧
          ∀ u ∈ b.callers i, ∀ u' ∈ b.callers i, b.shares u u' = true → u = u') := by
  obtain ⟨all, b', hrun, hsplit⟩ :=
    Act.partition_on (fun _ r => .ok (f r)) (fun id => f (b.rule id)) h fun _ _ _ _ => rfl
  refine ⟨all, b', hrun, fun hp => ?_, ?_⟩
  · by_cases hvalue : ∀ id ∈ b.ruleIds i, ∀ id' ∈ b.ruleIds i, f (b.rule id) = f (b.rule id')
    · exact .inl hvalue
    · push Not at hvalue
      obtain ⟨id, hid, id', hid', hne⟩ := hvalue
      refine .inr ⟨hp.content h hsplit hid hid' hne, fun u hu u' hu' => ?_⟩
      exact hp.callers h hsplit hid hid' hne hu hu'
  · rintro (hvalue | ⟨⟨ids, hcontent⟩, hgroups⟩)
    · exact hsplit.partitioned_of_eq h hvalue
    · exact hsplit.partitioned_of_rules h hcontent hgroups

section Sample

lemma Book.coherent_of_ungrouped (h : ∀ r ∈ b.rules, r.group? = none) : b.Coherent := by
  intro u id g hu
  rw [forall_rule h rfl u] at hu
  cases hu

/-- One glyph for another, a ligature, and again one glyph for another. -/
def mixedRules : List Rule :=
  [[["a"]], [["c"], ["d"]], [["e"]]].map fun input =>
    Rule.ofBody (.substitution { input := some input, replacement := some [["b"]] })

/-- A mixed routine, and a chain that calls it twice at its first position. -/
def mixedBook : Book :=
  { routines := #[{ name := some "mixed", content := .rules [0, 1, 2] },
      { name := some "chain", content := .rules [3] }]
    rules := (mixedRules ++ [Rule.ofBody (.chaining { input := some [["a"], ["b"]], calls :=
      [some [.ref ⟨some (some "mixed"), some 0⟩, .bare 1, .bare 0], some []] })]).toArray
    order := [1, 0]
    features := [("liga", [.ref ⟨some (some "chain"), some 1⟩, .ref ⟨some (some "mixed"), some 0⟩])] }

theorem partition_partitions_mixed : ∃ all b',
    (Act.partition 0 fun _ r => .ok (r.input.getD []).length).on mixedBook = (.ok (some all), b') ∧
      Partitioned mixedBook b' 0 (fun id => ((mixedBook.rule id).input.getD []).length) all := by
  have splittable : Splittable mixedBook 0 :=
    ⟨by decide, by decide, by decide, by decide, by decide, Book.coherent_of_ungrouped (by decide)⟩
  obtain ⟨all, b', hrun, hiff⟩ := partition_partitions_iff (fun r => (r.input.getD []).length) splittable
  exact ⟨all, b', hrun, hiff.2 (.inr ⟨⟨_, rfl⟩, by decide⟩)⟩

def extendedBook : Book :=
  { routines := #[{ name := some "mixed", content := .rules [0, 1, 2] },
      { name := some "outer", content := .extension [0] }]
    rules := mixedRules.toArray
    order := [1] }

/-- **An extension of mixed rules is not partitioned**: its copies keep all of them. -/
theorem partition_extension : ∃ all b',
    (Act.partition 1 fun _ r => .ok (r.input.getD []).length).on extendedBook = (.ok (some all), b') ∧
      ¬Partitioned extendedBook b' 1 (fun id => ((extendedBook.rule id).input.getD []).length) all := by
  have splittable : Splittable extendedBook 1 :=
    ⟨by decide, by decide, by decide, by decide, by decide, Book.coherent_of_ungrouped (by decide)⟩
  obtain ⟨all, b', hrun, hsplit⟩ := Act.partition_on (fun _ r => .ok (r.input.getD []).length)
    (fun id => ((extendedBook.rule id).input.getD []).length) splittable fun _ _ _ _ => rfl
  refine ⟨all, b', hrun, fun hp => ?_⟩
  have hmixed : ((extendedBook.rule 0).input.getD []).length ≠ ((extendedBook.rule 1).input.getD []).length := by decide
  obtain ⟨ids, hids⟩ := hp.content splittable hsplit (by decide)
    (by decide) hmixed
  cases hids

end Sample

end GlyphRules
