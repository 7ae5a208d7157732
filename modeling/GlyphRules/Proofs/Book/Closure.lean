import GlyphRules.Proofs.Book.LookupTypes
import GlyphRules.Proofs.Book.Resolve

/-! Resolving calls reaches an end.

`Act.resolveAll` goes over a list that grows, since a routine that a chain calls as it stands is put
in force behind all others. No routine comes in force twice, so the loop ends, and then it has come
to all that it put in force (`resolveAll_closes`). -/
namespace GlyphRules

open Step List Rule Book Act

variable {b b' : Book} {l : Lookup}

/-! ### Calls that can be resolved -/

/-- A call that can be resolved: a routine as it stands, or a reference to a routine in force, which is known
or given by its name. -/
def Lookup.Resolvable (b : Book) : Lookup → Prop
  | .bare _ => True
  | .ref ⟨none, _⟩ => False
  | .ref ⟨some _, some i⟩ => i ∈ b.order
  | .ref ⟨some n, none⟩ => ∃ i ∈ b.order, (b.routine i).name = n

instance (b : Book) : DecidablePred (Lookup.Resolvable b)
  | .bare _ => isTrue trivial
  | .ref ⟨none, _⟩ => isFalse id
  | .ref ⟨some _, some i⟩ => inferInstanceAs (Decidable (i ∈ b.order))
  | .ref ⟨some n, none⟩ => inferInstanceAs (Decidable (∃ i ∈ b.order, (b.routine i).name = n))

/-- All chains of the routines that come in force make calls that can be resolved. -/
def Book.Resolvable (b : Book) : Prop :=
  ∀ i, b.Comes i → ∀ id ∈ b.ruleIds i, ∀ l ∈ (b.rule id).chained.entries, l.Resolvable b

lemma Lookup.Resolvable.mono (h : l.Resolvable b) (hb : b.Extends b') : l.Resolvable b' := by
  match l, h with
  | .bare _, _ => trivial
  | .ref ⟨some _, some i⟩, hi => exact hb.order i hi
  | .ref ⟨some _, none⟩, ⟨i, hi, hn⟩ => exact ⟨i, hb.order i hi, (hb.name i).trans hn⟩

lemma Lookup.Settled.resolvable (h : l.Settled b) : l.Resolvable b := by
  obtain ⟨n, i, rfl, hi, -⟩ := h
  exact hi

lemma RuleResolves.entry (h : RuleResolves b r r') (hl : l ∈ r'.chained.entries) :
    l ∈ r.chained.entries ∨ l.Settled b := by
  obtain ⟨ls', hls', hl⟩ := Calls.mem_entries.1 hl
  obtain ⟨slot, hslot, hposition⟩ := forall₂_mem_right h.positions hls'
  cases hposition with
  | same => exact .inl (Calls.mem_entries.2 ⟨ls', hslot, hl⟩)
  | calls hcalls =>
    obtain ⟨_, -, hresolves⟩ := forall₂_mem_right hcalls hl
    exact .inr hresolves.settled

lemma Resolving.resolvable (h : Resolving b b') (hb : b.Resolvable) : b'.Resolvable := by
  intro i hi id hid l hl
  rcases (h.rule id).entry hl with hl | hl
  · exact (hb i (h.comes hi) id (h.ruleIds i ▸ hid) l hl).mono h.extend
  · exact hl.resolvable

/-! ### Every step has a result -/

lemma Book.resolve_isOk (h : (Lookup.ref r).Resolvable b) :
    ∃ r' i, b.resolve r = .ok r' ∧ r'.routine = some i ∧ i ∈ b.order := by
  unfold resolve
  match r, h with
  | ⟨some n, some i⟩, hi =>
    dsimp only
    split
    · next hn => cases hn
    · exact ⟨_, i, rfl, rfl, hi⟩
    · exact ⟨_, i, rfl, rfl, hi⟩
    · exact ⟨_, i, rfl, rfl, hi⟩
  | ⟨some n, none⟩, ⟨i, hi, hn⟩ =>
    obtain ⟨j, hj⟩ : ∃ j, b.routineNamed? n = some j :=
      Option.isSome_iff_exists.1 (List.find?_isSome.2 ⟨i, hi, by simp [hn]⟩)
    have hmem : j ∈ b.order := mem_of_find?_eq_some hj
    dsimp only
    rw [hj]
    dsimp only
    split <;> exact ⟨_, j, rfl, rfl, hmem⟩

namespace Act

lemma resolveLookup_ok (h : l.Resolvable b) : ∃ l' b', (resolveLookup l).on b = (.ok l', b') := by
  cases l with
  | bare i => exact ⟨_, _, rfl⟩
  | ref r =>
    obtain ⟨r', i, hr', hroutine, hi⟩ := resolve_isOk h
    rw [resolveLookup, on_get_bind, hr', on_bind_ok (on_ofExcept _ b), hroutine, on_get_bind, if_pos (by simpa using hi)]
    exact ⟨_, _, rfl⟩

lemma mapM_resolveLookup_ok {ls : List Lookup} (hls : ∀ l ∈ ls, l.Resolvable b)
    (hbare : ∀ j, .bare j ∈ ls → j < b.routines.size) : ∃ ls' b', (ls.mapM resolveLookup).on b = (.ok ls', b') := by
  induction ls generalizing b with
  | nil => exact ⟨_, _, rfl⟩
  | cons l ls ih =>
    obtain ⟨hl, hls⟩ := forall_mem_cons.1 hls
    obtain ⟨l', b₁, h₁⟩ := resolveLookup_ok hl
    obtain ⟨referred, -⟩ := resolveLookup_on (fun j hj => hbare j (by simp [hj])) h₁
    obtain ⟨ls', b₂, h₂⟩ := ih (fun l hl => (hls l hl).mono referred.extend)
      fun j hj => referred.size ▸ hbare j (by simp [hj])
    exact ⟨_, _, by rw [mapM_cons, on_bind_ok h₁, on_bind_ok h₂]; rfl⟩

lemma resolveSlot_ok (hslot : ∀ l ∈ slot.getD [], l.Resolvable b)
    (hbare : ∀ j, .bare j ∈ slot.getD [] → j < b.routines.size) :
    ∃ slot' b', (resolveSlot slot).on b = (.ok slot', b') := by
  match slot, hslot, hbare with
  | none, _, _ | some [], _, _ => exact ⟨_, _, rfl⟩
  | some (l :: ls), hslot, hbare =>
    obtain ⟨ls', b', h⟩ := mapM_resolveLookup_ok hslot hbare
    exact ⟨some ls', b', on_bind_ok h _⟩

section Chain
variable {id : RuleId} (hb : b.Coherent) (hbare : b.BareWithin) (hcalls : b.Resolvable) (hid : id ∈ b.allRules)
include hbare hcalls hid

lemma resolveAt_ok {c} (hc : (b.rule id).body = .chaining c) (hix : ix < c.calls.length) :
    ∃ b', (resolveAt id ix).on b = (.ok (), b') := by
  obtain ⟨slot, hat⟩ : ∃ slot, c.calls[ix]? = some slot := ⟨_, List.getElem?_eq_getElem hix⟩
  have hgetD : c.calls.getD ix none = slot := by simp [hat]
  have entries l := mem_entries_of_getElem? (l := l) hc hat
  obtain ⟨i, hi, hin⟩ := mem_flatMap.1 hid
  obtain ⟨slot', b₁, h₁⟩ := resolveSlot_ok (fun l hl => hcalls i (.inForce hi) id hin l (entries l hl))
    fun j hj => hbare id j (entries _ hj)
  rw [resolveAt, on_get_bind, calls_chaining hc, Option.getD_some, hgetD, on_bind_ok h₁]
  exact ⟨_, on_modify _ b₁⟩

include hb

lemma resolveCalls_ok : ∃ b', (resolveCalls id).on b = (.ok (), b') := by
  rw [resolveCalls, on_get_bind]
  split
  · next c hc =>
    let Inv (s : Book) : Prop := Resolving b s ∧ s.Coherent
    have step {ix s} (hix : ix ∈ List.range c.calls.length) (hs : Inv s) :
        ∃ t, (resolveAt id ix).on s = (.ok (), t) ∧ Inv t := by
      obtain ⟨resolving, coherent⟩ := hs
      obtain ⟨calls, hcs, length⟩ := (resolving.rule id).chaining hc
      have hlt : ix < calls.length := length ▸ mem_range.1 hix
      have hid' := resolving.mem_allRules hid
      have hbare' := resolving.bareWithin hbare
      obtain ⟨t, ht⟩ := resolveAt_ok hbare' (resolving.resolvable hcalls) hid' hcs hlt
      obtain ⟨resolving', coherent', -⟩ := resolveAt_on coherent hbare' hid' hcs hlt ht
      exact ⟨t, ht, resolving.trans resolving', coherent'⟩
    obtain ⟨t, ht, -⟩ := on_forM_reaches (fun _ => Inv) step ⟨.refl b, hb⟩
    exact ⟨t, ht⟩
  · exact ⟨b, rfl⟩

end Chain

variable (hb : b.Coherent) (hbare : b.BareWithin) (hcalls : b.Resolvable)
include hb hbare hcalls

lemma forM_resolveCalls_ok {ids : List RuleId} (hids : ∀ id ∈ ids, id ∈ b.allRules) :
    ∃ b', (ids.forM resolveCalls).on b = (.ok (), b') := by
  let Inv (s : Book) : Prop := Resolving b s ∧ s.Coherent
  have step {id s} (hid : id ∈ ids) (hs : Inv s) : ∃ t, (resolveCalls id).on s = (.ok (), t) ∧ Inv t := by
    obtain ⟨resolving, coherent⟩ := hs
    have hid' := resolving.mem_allRules (hids id hid)
    have hbare' := resolving.bareWithin hbare
    obtain ⟨t, ht⟩ := resolveCalls_ok coherent hbare' (resolving.resolvable hcalls) hid'
    obtain ⟨resolving', coherent', -⟩ := resolveCalls_on coherent hbare' hid' ht
    exact ⟨t, ht, resolving.trans resolving', coherent'⟩
  obtain ⟨t, ht, -⟩ := on_forM_reaches (fun _ => Inv) step ⟨.refl b, hb⟩
  exact ⟨t, ht⟩

lemma resolveFrom_ok (fuel n) : ∃ b', (resolveFrom fuel n).on b = (.ok (), b') := by
  induction fuel generalizing b n with
  | zero => exact ⟨b, rfl⟩
  | succ fuel ih =>
    rw [resolveFrom, on_get_bind]
    split
    · exact ⟨b, rfl⟩
    · next i hi =>
      have hids (id) hid : id ∈ b.allRules :=
        mem_flatMap.2 ⟨i, mem_of_getElem? hi, hid⟩
      obtain ⟨b₁, h₁⟩ := forM_resolveCalls_ok hb hbare hcalls hids
      obtain ⟨resolving, coherent, -⟩ := forM_resolveCalls_on hb hbare hids h₁
      obtain ⟨b₂, h₂⟩ := ih coherent (resolving.bareWithin hbare) (resolving.resolvable hcalls) (n + 1)
      exact ⟨b₂, (on_bind_ok h₁ _).trans h₂⟩

end Act

/-! ### The loop without a bound -/

namespace Act

/-- Resolve the routine at a place and go on to the next. -/
def resolvePass : Pass Book := fun n => do
  let b ← get
  match b.order[n]? with
  | none => return none
  | some i =>
    (b.ruleIds i).forM resolveCalls
    return some (n + 1)

/-- Where the bound lies beyond the last place, the loop ends without it. -/
lemma loop_resolvePass (hrun : (resolveFrom fuel n).on b = (.ok (), b'))
    (hfuel : b'.order.length < n + fuel) : loop resolvePass n b = some (.ok (), b') := by
  have stop {b} {n} (hn : b.order[n]? = none) : (resolvePass n).on b = (.ok none, b) := by
    rw [resolvePass, on_get_bind, hn]
    rfl
  induction fuel generalizing b n with
  | zero =>
    cases hrun
    exact loop_stop (stop (List.getElem?_eq_none (Nat.le_of_lt hfuel)))
  | succ fuel ih =>
    rw [resolveFrom, on_get_bind] at hrun
    split at hrun
    · next hn =>
      cases hrun
      exact loop_stop (stop hn)
    · next i hi =>
      obtain ⟨_, b₁, h₁, hrun⟩ := on_bind_eq_ok hrun
      have next : (resolvePass n).on b = (.ok (some (n + 1)), b₁) := by
        rw [resolvePass, on_get_bind, hi]
        exact on_bind_ok h₁ _
      rw [loop_next next]
      exact ih hrun (by rwa [Nat.add_right_comm])

end Act

/-! ### What is resolved stays -/

lemma Called.unique {u} {calls} (h₁ : Called b b₁ u calls)
    (h₂ : Called b b₂ u calls) : b₁ = b₂ := by
  have rules : b₁.rules = b₂.rules := by
    refine Array.ext (h₁.size.trans h₂.size.symm) fun i hi₁ hi₂ => ?_
    have same := (h₁.rule i).trans (h₂.rule i).symm
    rwa [rule_eq, rule_eq, Array.getElem?_eq_getElem hi₁, Array.getElem?_eq_getElem hi₂] at same
  have rest : { b₁ with rules := b₂.rules } = { b₂ with rules := b₂.rules } :=
    congrArg (fun x => { x with rules := b₂.rules }) (h₁.rest.trans h₂.rest.symm)
  exact (congrArg (fun x => { b₁ with rules := x }) rules).trans rest

namespace Act

lemma resolveLookup_settled (h : l.Settled b) : (resolveLookup l).on b = (.ok l, b) := by
  obtain ⟨n, i, rfl, hi, hn⟩ := h
  have hresolve : b.resolve ⟨some n, some i⟩ = .ok ⟨some n, some i⟩ := by
    unfold resolve
    dsimp only
    split
    · next h => cases h
    · next h =>
      cases h
      rw [← hn rfl]
    · next h =>
      cases h
      rw [← hn rfl]
    · rfl
  rw [resolveLookup, on_get_bind, hresolve, on_bind_ok (on_ofExcept _ b), on_get_bind, if_pos (by simpa using hi)]
  rfl

lemma resolveSlot_resolved (h : PositionResolved b slot) :
    (resolveSlot slot).on b = (.ok slot, b) := by
  match slot, h with
  | none, _ => rfl
  | some [], h => exact absurd rfl h.1
  | some (l :: ls), h =>
    have same : ((l :: ls).mapM resolveLookup).on b = (.ok ((l :: ls).map id), b) :=
      on_mapM_pure fun l hl => resolveLookup_settled (h.2 l hl)
    rw [map_id] at same
    exact on_bind_ok same _

lemma resolveCalls_resolved (hb : b.Coherent) {id} (h : b.ChainResolved id) :
    (resolveCalls id).on b = (.ok (), b) := by
  rw [resolveCalls, on_get_bind]
  split
  · next c hc =>
    refine on_forM_same fun ix hix => ?_
    have hlt := mem_range.1 hix
    have hget : c.calls.getD ix none = c.calls[ix] := by simp [hlt]
    have hslot : PositionResolved b c.calls[ix] := h _ (by rw [chained_chaining hc]; exact getElem_mem hlt)
    rw [resolveAt, on_get_bind, calls_chaining hc, Option.getD_some, hget,
      on_bind_ok (resolveSlot_resolved hslot), on_modify, calls_chaining hc, Option.getD_some,
      set_getElem_self, (Called.of_setCalls (lt_of_chaining hc) c.calls).unique (hb.called hc)]
  · rfl

lemma resolveFrom_resolved (hb : b.Coherent) (h : ∀ id ∈ b.allRules, b.ChainResolved id) (fuel n) :
    (resolveFrom fuel n).on b = (.ok (), b) := by
  induction fuel generalizing n with
  | zero => rfl
  | succ fuel ih =>
    rw [resolveFrom, on_get_bind]
    split
    · rfl
    · next i hi =>
      have same : ((b.ruleIds i).forM resolveCalls).on b = (.ok (), b) := on_forM_same fun id hid =>
        resolveCalls_resolved hb (h id (mem_flatMap.2 ⟨i, mem_of_getElem? hi, hid⟩))
      exact (on_bind_ok same _).trans (ih _)

end Act

/-! ### The end -/

lemma Resolving.mem_of_comes (h : Resolving b b') (hresolved : ∀ id ∈ b'.allRules, b'.ChainResolved id)
    {j} (hj : b.Comes j) : j ∈ b'.order := by
  induction hj with
  | inForce hi => exact h.order.subset hi
  | @called i j id _ hid hj ih =>
    have hdep : some j ∈ dependencies (b'.rule id) := by
      refine (h.rule id).dependencies ?_
      rw [dependencies_eq]
      exact mem_map.2 ⟨_, hj, rfl⟩
    rw [dependencies_eq] at hdep
    obtain ⟨l, hl, hroutine⟩ := mem_map.1 hdep
    obtain ⟨ls, hls, hl⟩ := Calls.mem_entries.1 hl
    obtain ⟨n, k, rfl, hk, -⟩ := (hresolved id (mem_flatMap.2 ⟨i, ih, h.ruleIds i ▸ hid⟩) _ hls).2 l hl
    cases hroutine
    exact hk

/-- **Resolving ends, and then all is resolved.** From a list of distinct routines whose chains make calls that can
be resolved, also those of the routines that come in force meanwhile, the loop ends without a fault. Afterwards every
position of every chain in force calls nothing or holds references to routines in force, and those in force are
what was in force, in its order, and what has been called as it stands, each once. Nothing is left to do. -/
theorem resolveAll_closes {b : Book} (hcoherent : b.Coherent) (hbare : b.BareWithin) (hnodup : b.order.Nodup)
    (hcalls : b.Resolvable) :
    ∃ b', loop resolvePass 0 b = some (.ok (), b') ∧ resolveAll.on b = (.ok (), b') ∧ Resolving b b' ∧
      (∀ i ∈ b'.order, ∀ id ∈ b'.ruleIds i, ∀ slot ∈ (b'.rule id).chained, slot = none ∨
        ∃ ls, slot = some ls ∧ ls ≠ [] ∧ ∀ l ∈ ls, ∃ r k, l = .ref r ∧ r.routine = some k ∧ k ∈ b'.order) ∧
      b.order <+: b'.order ∧ b'.order.Nodup ∧ (∀ j, j ∈ b'.order ↔ b.Comes j) ∧
      loop resolvePass 0 b' = some (.ok (), b') ∧ resolveAll.on b' = (.ok (), b') := by
  have bound {b b' : Book} (h : Resolving b b') : b'.order.length < 0 + (b.order.length + b.routines.size + 1) := by
    rw [Nat.zero_add]
    exact Nat.lt_succ_of_le h.order.length_le
  have hall (b : Book) : resolveAll.on b =
      (resolveFrom (b.order.length + b.routines.size + 1) 0).on b := on_bind_ok (on_get b) _
  obtain ⟨b', hrun⟩ := resolveFrom_ok hcoherent hbare hcalls (b.order.length + b.routines.size + 1) 0
  obtain ⟨resolving, coherent, resolved⟩ := resolveAll_on hcoherent hbare ((hall b).trans hrun)
  have again := resolveFrom_resolved coherent resolved (b'.order.length + b'.routines.size + 1) 0
  obtain ⟨new, horder, -⟩ := resolving.order
  refine ⟨b', loop_resolvePass hrun (bound resolving), (hall b).trans hrun, resolving, ?_, ⟨new, horder.symm⟩,
    resolving.order.nodup hnodup, fun j => ⟨resolving.came j, resolving.mem_of_comes resolved⟩,
    loop_resolvePass again (bound (.refl b')), (hall b').trans again⟩
  intro i hi id hid slot hslot
  have position := resolved id (List.mem_flatMap.2 ⟨i, hi, hid⟩) slot hslot
  cases slot with
  | none => exact .inl rfl
  | some ls =>
    refine .inr ⟨ls, rfl, position.1, fun l hl => ?_⟩
    obtain ⟨n, k, rfl, hk, -⟩ := position.2 l hl
    exact ⟨_, k, rfl, rfl, hk⟩

section Sample

/-- Calls that can all be resolved, whatever comes in force. -/
lemma Book.resolvable_of_rules (h : ∀ r ∈ b.rules, ∀ l ∈ r.chained.entries, l.Resolvable b) : b.Resolvable :=
  fun _ _ id _ => forall_rule h (forall_mem_nil _) id

/-- A routine in force calls a second one as it stands, and this a third one, which shares a chain with it and calls
it in turn. Both call the first one by its name. -/
def circleBook : Book :=
  { routines := #[{ name := some "outer", content := .rules [0] }, { name := some "middle", content := .rules [1] },
      { name := some "inner", content := .rules [2, 1] }]
    rules := #[Rule.ofBody (.chaining { input := some [["a"], ["b"]], calls := [some [.bare 1], some []] }),
      Rule.ofBody (.chaining { input := some [["a"]], calls := [some [.bare 2, .ref ⟨some (some "outer"), none⟩]] }),
      Rule.ofBody (.chaining { input := some [["b"]], calls := [none, some [.bare 1]] })]
    order := [0] }

theorem resolveAll_closes_circle : circleBook.order.Nodup ∧ circleBook.Resolvable ∧
    ∃ b', loop resolvePass 0 circleBook = some (.ok (), b') ∧ b'.order = [0, 1, 2] ∧
      (∀ i ∈ b'.order, ∀ id ∈ b'.ruleIds i, ∀ slot ∈ (b'.rule id).chained, slot = none ∨
        ∃ ls, slot = some ls ∧ ls ≠ [] ∧ ∀ l ∈ ls, ∃ r k, l = .ref r ∧ r.routine = some k ∧ k ∈ b'.order) ∧
      loop resolvePass 0 b' = some (.ok (), b') := by
  have within : circleBook.CallsWithin := Book.callsWithin_of_rules (by decide)
  have calls : circleBook.Resolvable := Book.resolvable_of_rules (by decide)
  obtain ⟨b', hloop, hrun, -, hslots, -, -, -, hagain, -⟩ :=
    resolveAll_closes (Book.coherent_of_ungrouped (by decide)) within.bareWithin (by decide) calls
  refine ⟨by decide, calls, b', hloop, ?_, hslots, hagain⟩
  obtain ⟨-, rfl⟩ := Prod.mk.inj hrun
  decide

end Sample

end GlyphRules
