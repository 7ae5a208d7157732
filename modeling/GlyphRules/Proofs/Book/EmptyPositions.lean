import GlyphRules.Proofs.Book.LookupTypes
import GlyphRules.Proofs.Book.Resolve

/-! Splitting a routine whose callers leave positions empty.

Resolving makes an empty position of a chain one that calls nothing at all. Redirecting stops there,
when the routine has been divided and the features do not have the new calls. So after resolving, a
routine is split exactly when no caller leaves a position empty (`partition_resolved_iff`). -/
namespace GlyphRules

open Step List Rule Book Act

/-! ### Redirecting stops -/

lemma OnlyRules.setCalls (b) (u) (calls) : OnlyRules b (b.setCalls u calls) := by
  unfold OnlyRules Book.setCalls
  split <;> rfl

lemma Rule.none_mem_mapCalls (f) (r : Rule) (h : none ∈ r.calls.getD []) :
    none ∈ (r.mapCalls f).calls.getD [] := by
  unfold mapCalls
  split
  · next c hc =>
    rw [calls_chaining hc] at h
    exact mem_map.2 ⟨none, h, rfl⟩
  · exact h

namespace Act
variable (old : RoutineId) (new : List RoutineId)

lemma keeps_redirect (u) : Keeps OnlyRules (redirect old new u) := by
  refine .bind .get fun b => .forM _ fun slot _ => ?_
  obtain ⟨_ | l, ix⟩ := slot
  · exact .throw _
  · exact .modify fun b => .setCalls b u _

lemma redirectSlots_fail {slots : List (Option (List Lookup) × Nat)}
    (h : none ∈ slots.map Prod.fst) (b) :
    ∃ b', (slots.forM (redirectSlot old new u)).on b = (.error .wrongKind, b') := by
  induction slots generalizing b with
  | nil => cases h
  | cons slot slots ih =>
    obtain ⟨_ | l, ix⟩ := slot
    · exact ⟨b, rfl⟩
    · obtain ⟨b', hb'⟩ := ih (by simpa using h) _
      exact ⟨b', hb'⟩

lemma forM_redirect_fails {new} {users : List RuleId} (hb : b.Coherent)
    (husers : ∀ u ∈ users, ∃ c, (b.rule u).body = .chaining c)
    (hempty : ∃ u ∈ users, none ∈ (b.rule u).calls.getD [])
    (hnames : ∀ j ∈ new, (b.routine j).name = name) :
    ∃ b', (users.forM (redirect old new)).on b = (.error .wrongKind, b') := by
  obtain ⟨u, hfirst⟩ : ∃ u, users.find? (fun u => none ∈ (b.rule u).calls.getD []) = some u := by
    simpa [Option.isSome_iff_exists] using find?_isSome.2 (by simpa using hempty)
  obtain ⟨hu, full, rest, rfl, hfull⟩ := find?_eq_some_iff_append.1 hfirst
  obtain ⟨b₁, h₁, redirected⟩ := forM_redirect_on old hb (fun x hx => by
    obtain ⟨c, hc⟩ := husers x (mem_append_left _ hx)
    have hslots := hfull x hx
    rw [calls_chaining hc] at hslots
    exact ⟨c, hc, by simpa using hslots⟩) hnames
  have hnone : none ∈ (b₁.rule u).calls.getD [] := by
    rw [redirected.rule]
    exact Function.Iterate.rec (fun r : Rule => none ∈ r.calls.getD []) (by simpa using hu)
      (none_mem_mapCalls _) _
  obtain ⟨b', hb'⟩ := redirectSlots_fail old new (by rwa [zipIdx_map_fst 0]) b₁
  refine ⟨b', (congrArg (on b) forM_append).trans ((on_bind_ok h₁ _).trans ?_)⟩
  exact on_bind_error hb' fun _ => rest.forM (redirect old new)

end Act

/-! ### Splitting after resolving -/

/-- After resolving, a routine in force that has rules can be divided. -/
lemma Divisible.of_resolveAll {i} (hcoherent : b₀.Coherent) (hbare : b₀.BareWithin)
    (hresolve : resolveAll.on b₀ = (.ok (), b)) (hi : i ∈ b.order) (hrules : b.ruleIds i ≠ []) :
    Divisible b i := by
  obtain ⟨-, coherent, resolved⟩ := resolveAll_on hcoherent hbare hresolve
  refine ⟨hi, hrules, fun id hid hnone => ?_, coherent⟩
  rw [dependencies_eq] at hnone
  obtain ⟨l, hl, hnone⟩ := mem_map.1 hnone
  obtain ⟨ls, hls, hl⟩ := Calls.mem_entries.1 hl
  obtain ⟨n, k, rfl, -⟩ := (resolved id hid _ hls).2 l hl
  cases hnone

/-- All that called a routine calls each of the new ones instead. Chains that have their calls in common
are redirected together, once for each of them. -/
structure Recalled (b b' : Book) (i : RoutineId) (all : List RoutineId) : Prop where
  first : all.head? = some i
  order : b'.order = b.order.take (b.order.idxOf i) ++ all ++ b.order.drop (b.order.idxOf i + 1)
  features : b'.features = b.features.map fun (tag, l) => (tag, l.flatMap (callEach (b.routine i).name i all))
  callers : ∀ u ∈ b.callers i, ∃ n > 0,
    b'.rule u = (Rule.mapCalls (·.flatMap (callEach (b.routine i).name i all)))^[n] (b.rule u)
  others : ∀ id ∈ b.allRules, id ∉ b.callers i → b'.rule id = b.rule id

section Empty
variable {β : Type} [DecidableEq β] (f : Rule → β) {b : Book} {i : RoutineId}

lemma Act.partition_recalls (h : Divisible b i) (hslots : ∀ u ∈ b.callers i, none ∉ (b.rule u).calls.getD []) :
    ∃ all b', (partition i fun _ r => .ok (f r)).on b = (.ok (some all), b') ∧ Recalled b b' i all := by
  obtain ⟨b₁, b₂, users, g, groups, marked, callers, -, redirected, hrun⟩ :=
    partition_redirects (fun _ r => .ok (f r)) (fun id => f (b.rule id)) h hslots fun _ _ _ _ => rfl
  have only : OnlyRules (b₁.divided i (b.order.idxOf i) g groups) b₂ := redirected.rest
  have rule (id) : (b₁.divided i (b.order.idxOf i) g groups).rule id = b.rule id := marked.rule id
  refine ⟨_, _, hrun, rfl, ?_, ?_, fun u hu => ?_, fun id hid hnot => ?_⟩
  · refine only.order.trans ?_
    simp only [divided, marked.order]
  · exact congrArg _ (only.features.trans marked.features)
  · refine ⟨_, ?_, (redirected.rule u).trans (by rw [rule])⟩
    exact countP_pos_iff.2 ⟨u, callers.symm.subset hu, shares_iff.2 (.inl rfl)⟩
  · have hcalls : some i ∉ dependencies (b.rule id) := fun h => hnot (mem_callers.2 ⟨hid, h⟩)
    refine (redirected.rule id).trans ?_
    rw [rule]
    exact Function.iterate_fixed (mapCalls_of_not_mem hcalls _ _) _

/-- Where a caller leaves a position empty, the routine is divided and the features are not redirected. -/
lemma Act.partition_fails (h : Divisible b i) (hempty : ∃ u ∈ b.callers i, none ∈ (b.rule u).calls.getD []) :
    ∃ b', (partition i fun _ r => .ok (f r)).on b = (.error .wrongKind, b') ∧ b'.features = b.features ∧
      b'.order = b.order.take (b.order.idxOf i) ++
        i :: List.range' b.routines.size ((pieces (fun id => f (b.rule id)) (b.ruleIds i)).length - 1) ++
        b.order.drop (b.order.idxOf i + 1) := by
  obtain ⟨b₁, users, g, groups, marked, callers, hgroups, hrun⟩ :=
    partition_divides (fun _ r => .ok (f r)) (fun id => f (b.rule id)) h fun _ _ _ _ => rfl
  have rule (id) : (b₁.divided i (b.order.idxOf i) g groups).rule id = b.rule id := marked.rule id
  have chains (u) (hu : u ∈ users) : ∃ c, ((b₁.divided i (b.order.idxOf i) g groups).rule u).body = .chaining c := by
    rw [rule]
    exact chaining_of_mem (mem_callers.1 (callers.subset hu)).2
  obtain ⟨u, hu, hnone⟩ := hempty
  obtain ⟨b', hb'⟩ := forM_redirect_fails i (marked.coherent_divided h.coherent i _ g groups) chains
    ⟨u, callers.symm.subset hu, by rwa [rule]⟩
    fun _ => marked.names_divided (lt_of_ruleIds h.nonempty) (b.order.idxOf i) g groups
  have only : OnlyRules (b₁.divided i (b.order.idxOf i) g groups) b' :=
    (Keeps.forM users fun u _ => keeps_redirect i _ u).of_on hb'
  refine ⟨b', ?_, ?_, ?_⟩
  · rw [hrun]
    exact on_bind_error (on_bind_error hb' _) _
  · exact only.features.trans marked.features
  · refine only.order.trans ?_
    rw [hgroups]
    simp only [divided, marked.order, marked.size]
    rfl

/-- **After resolving, a routine is split exactly when** no chain that calls it leaves a position empty.
Otherwise splitting fails half-way: the new routines are in force and the features do not call them. -/
theorem partition_resolved_iff {b₀ : Book} (hcoherent : b₀.Coherent) (hbare : b₀.BareWithin)
    (hresolve : resolveAll.on b₀ = (.ok (), b)) (hi : i ∈ b.order) (hrules : b.ruleIds i ≠ []) :
    ((∃ all b', (partition i fun _ r => .ok (f r)).on b = (.ok (some all), b') ∧ Recalled b b' i all) ↔
      ∀ u ∈ b.callers i, none ∉ (b.rule u).calls.getD []) ∧
    ((∃ u ∈ b.callers i, none ∈ (b.rule u).calls.getD []) →
      ∃ b', (partition i fun _ r => .ok (f r)).on b = (.error .wrongKind, b') ∧ b'.features = b.features ∧
        b'.order = b.order.take (b.order.idxOf i) ++
          i :: List.range' b.routines.size ((pieces (fun id => f (b.rule id)) (b.ruleIds i)).length - 1) ++
          b.order.drop (b.order.idxOf i + 1)) := by
  have divisible := Divisible.of_resolveAll hcoherent hbare hresolve hi hrules
  refine ⟨⟨?_, partition_recalls f divisible⟩, partition_fails f divisible⟩
  rintro ⟨all, b', hrun, -⟩ u hu hnone
  obtain ⟨b'', hfail, -⟩ := partition_fails f divisible ⟨u, hu, hnone⟩
  rw [hrun] at hfail
  cases hfail

end Empty

section Sample

def hollowBook (second : List Lookup) : Book :=
  { routines := #[{ name := some "mixed", content := .rules [0, 1, 2] },
      { name := some "chain", content := .rules [3] }]
    rules := (mixedRules ++ [Rule.ofBody (.chaining { input := some [["a"], ["b"]], calls :=
      [some [.bare 0], some second] })]).toArray
    order := [0, 1]
    features := [("liga", [.ref ⟨some (some "mixed"), some 0⟩])] }

/-- The mixed routine is called by its name at the second position. -/
theorem partition_resolved_full : ∃ b all b',
    resolveAll.on (hollowBook [.ref ⟨some (some "mixed"), none⟩]) = (.ok (), b) ∧
      (partition 0 fun _ r => .ok (r.input.getD []).length).on b = (.ok (some all), b') ∧
      Recalled b b' 0 all := by
  have coherent : (hollowBook [.ref ⟨some (some "mixed"), none⟩]).Coherent :=
    Book.coherent_of_ungrouped (by decide)
  have within : (hollowBook [.ref ⟨some (some "mixed"), none⟩]).CallsWithin :=
    Book.callsWithin_of_rules (by decide)
  obtain ⟨⟨-, hsplit⟩, -⟩ := partition_resolved_iff (fun r => (r.input.getD []).length) coherent
    within.bareWithin rfl (by decide : 0 ∈ _) (by decide)
  obtain ⟨all, b', hrun, recalled⟩ := hsplit (by decide)
  exact ⟨_, all, b', rfl, hrun, recalled⟩

/-- **A chain that calls the routine and leaves a position empty** stops the split. -/
theorem partition_resolved_hollow : ∃ b b', resolveAll.on (hollowBook []) = (.ok (), b) ∧
    0 ∈ b.order ∧ b.ruleIds 0 ≠ [] ∧
    (partition 0 fun _ r => .ok (r.input.getD []).length).on b = (.error .wrongKind, b') ∧
    b'.order = [0, 2, 1] ∧ b'.features = b.features :=
  ⟨_, _, rfl, by decide, by decide, rfl, by decide, rfl⟩

end Sample

end GlyphRules
