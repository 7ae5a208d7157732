import GlyphRules.Proofs.Book.CallOrder
import GlyphRules.Proofs.Book.Features

/-! Use counts when a book is written.

Before a book is written its calls are resolved, and a routine that a chain calls counts as used
often. So in a book made of features a routine counts as used once exactly when features use it once
and no chain calls it (`Callable.once`). -/
namespace GlyphRules

open Step List Rule Book

/-- A book that no feature was added to: no routine is used, all of them hold rules, and chains alone call
routines, by the names that these have if by any. -/
structure Book.Unwritten (b : Book) : Prop where
  features : b.features = []
  unused : ∀ j, (b.routine j).usecount = 0
  nodup : b.order.Nodup
  within : ∀ i ∈ b.order, i < b.routines.size
  plain : ∀ i < b.routines.size, ∃ ids, (b.routine i).content = .rules ids ∧ ∀ id ∈ ids, id < b.rules.size
  coherent : b.Coherent
  bare : b.BareWithin
  names : ∀ id n i, .ref ⟨some n, some i⟩ ∈ (b.rule id).chained.entries → Unnamed n ∨ n = (b.routine i).name
  chains : ∀ id, (b.rule id).isChain = false → ((b.rule id).calls.getD []).entries = []

def Book.Resolved (b : Book) (l : Lookup) : Prop :=
  ∃ n j, l = .ref ⟨some n, some j⟩ ∧ j ∈ b.order ∧ (Unnamed n ∨ n = (b.routine j).name)

/-- A book whose calls are resolved and whose routines in force count as used once exactly if that is how often
features use them and no chain calls them. -/
structure Callable (base b : Book) (us : List (String × RoutineId)) : Prop where
  coherent : b.Coherent
  nodup : b.order.Nodup
  within : ∀ i ∈ b.order, i < b.routines.size
  plain : ∀ i < b.routines.size, ∃ ids, (b.routine i).content = .rules ids ∧ ∀ id ∈ ids, id < b.rules.size
  resolved : ∀ id ∈ b.allRules, ∀ l ∈ (b.rule id).chained.entries, b.Resolved l
  once : ∀ i ∈ b.order, (b.routine i).usecount = 1 ↔ (us.map (·.2)).count i = 1 ∧ ¬b.ChainCalled i
  refs : ∀ tag l, b.FeatureCalls tag l → ∃ n i, l = .ref ⟨n, some i⟩ ∧ i ∈ b.order
  calls : ∀ tag i, (tag, i) ∈ us ↔ ∃ l, b.FeatureCalls tag l ∧ l.routine? = some i
  ruleIds : ∀ i, b.ruleIds i = base.ruleIds i
  languages : ∀ i, (b.routine i).languages = (base.routine i).languages

lemma RuleResolves.eq_of_not_chain {r r'} (h : RuleResolves b r r') (hr' : r'.isChain = false) :
    r' = r := by
  cases h with
  | same => rfl
  | calls hc =>
    rw [isChain, body_withCalls hc] at hr'
    cases hr'

section Resolved
variable {base b b₁ : Book} {us : List (String × RoutineId)} (hbase : base.Unwritten) (h : Featured base b us)
include h

lemma Featured.rule (id) : b.rule id = base.rule id :=
  rule_of_eq h.rules id

include hbase

lemma Featured.coherent : b.Coherent := by
  intro u id g
  rw [h.rule, h.rule]
  exact hbase.coherent u id g

lemma Featured.bareWithin : b.BareWithin := by
  intro id j
  rw [h.rule, h.size]
  exact hbase.bare id j

lemma Featured.resolved (hr : Resolving b b₁) (hresolved : ∀ id ∈ b₁.allRules, b₁.ChainResolved id) {id}
    (hid : id ∈ b₁.allRules) {l} (hl : l ∈ (b₁.rule id).chained.entries) : b₁.Resolved l := by
  have name (j) : (b₁.routine j).name = (base.routine j).name :=
    (hr.extend.name j).trans (congrArg (·.name) (h.routine j))
  -- A call that was there before has the name of its routine if it has one.
  have old {n j} (hmem : .ref ⟨some n, some j⟩ ∈ (b.rule id).chained.entries) : Unnamed n ∨ n = (b₁.routine j).name := by
    rw [name]
    exact hbase.names id n j (h.rule id ▸ hmem)
  obtain ⟨ls, hls, hl⟩ := Calls.mem_entries.1 hl
  obtain ⟨n, j, rfl, hj, -⟩ := (hresolved id hid _ hls).2 l hl
  refine ⟨n, j, rfl, hj, ?_⟩
  obtain ⟨slot, hslot, position⟩ := forall₂_mem_right (hr.rule id).positions hls
  cases position with
  | same => exact old (Calls.mem_entries.2 ⟨ls, hslot, hl⟩)
  | calls hcalls =>
    obtain ⟨l', hl', n', j', heq, -, -, hname⟩ := forall₂_mem_right hcalls hl
    cases heq
    rcases hname with ⟨rfl, -⟩ | hname
    · exact old (Calls.mem_entries.2 ⟨_, hslot, hl'⟩)
    · exact .inr hname

lemma Featured.chainCalled (hr : Resolving b b₁) {p} {l} {j} (hl : l ∈ b₁.calledAt p)
    (hj : l.routine? = some j) : b₁.ChainCalled j := by
  unfold calledAt at hl
  split at hl
  · cases hl
  next i hi =>
  split at hl
  · obtain ⟨r, hr', hl⟩ := mem_flatMap.1 hl
    obtain ⟨id, hid, rfl⟩ := mem_map.1 hr'
    cases hchain : (b₁.rule id).isChain with
    | false =>
      have same : b₁.rule id = base.rule id := ((hr.rule id).eq_of_not_chain hchain).trans (h.rule id)
      rw [same] at hl hchain
      rw [hbase.chains id hchain] at hl
      cases hl
    | true =>
      obtain ⟨c, hc⟩ : ∃ c, (b₁.rule id).body = .chaining c := by
        unfold isChain at hchain
        split at hchain
        · next c hc => exact ⟨c, hc⟩
        · cases hchain
      rw [calls_chaining hc] at hl
      refine chainCalled_iff.2 ⟨id, mem_flatMap.2 ⟨i, mem_of_getElem? hi, hid⟩, ?_⟩
      rw [dependencies_eq, chained_chaining hc]
      exact mem_map.2 ⟨l, hl, hj⟩
  · cases hl

end Resolved

lemma callable_of_callOrder {us} {places}
    (hbase : base.Unwritten) (h : Featured base b us) (hrun : Act.callOrder.on b = (.ok places, b')) :
    Callable base b' us ∧ places.Perm (List.range b'.order.length) := by
  obtain ⟨⟨⟩, b₁, hresolve, -⟩ := on_bind_eq_ok hrun
  obtain ⟨hr, coherent, chains⟩ := Act.resolveAll_on (h.coherent hbase) (h.bareWithin hbase) hresolve
  have orderable := Act.orderable_of_callOrder hresolve hrun
  cases (Act.callOrder_on hresolve orderable).symm.trans hrun
  -- Just what a chain calls is counted as used often.
  have written (j) : j ∈ ((List.range b₁.order.length).reverse.flatMap
      fun p => (b₁.calledAt p).filterMap Lookup.routine?) ↔ b₁.ChainCalled j := by
    constructor
    · intro hj
      obtain ⟨p, -, hj⟩ := mem_flatMap.1 hj
      obtain ⟨l, hl, hj⟩ := mem_filterMap.1 hj
      exact h.chainCalled hbase hr hl hj
    · rintro ⟨i, hi, hj⟩
      obtain ⟨p, hp⟩ := mem_iff_getElem?.1 hi
      obtain ⟨-, l, hl, hroutine⟩ := mem_calledAt chains hp hj
      refine mem_flatMap.2 ⟨p, ?_, mem_filterMap.2 ⟨l, hl, hroutine⟩⟩
      simpa using (List.getElem?_eq_some_iff.1 hp).1
  generalize (List.range b₁.order.length).reverse.flatMap
    (fun p => (b₁.calledAt p).filterMap Lookup.routine?) = is at written
  have order := h.order.trans hr.order h.size
  have routine (j) : ((b₁.write is).routine j).uncounted = (base.routine j).uncounted :=
    (b₁.uncounted_write is j).trans ((hr.routine j).trans (h.routine j))
  have size : (b₁.write is).routines.size = base.routines.size := (b₁.size_write is).trans (hr.size.trans h.size)
  have rules : (b₁.write is).rules.size = base.rules.size := by
    have same : (b₁.write is).rules = b₁.rules := congrArg (·.rules) (b₁.rest_write is)
    rw [same, hr.rules, h.rules]
  have within (i) (hi : i ∈ b₁.order) : i < base.routines.size := by
    obtain ⟨new, heq, -, hnew⟩ := order
    rw [heq, mem_append] at hi
    exact hi.elim (hbase.within i) fun hi => (hnew i hi).2
  have ruleIds := ruleIds_of_content size fun j => congrArg (·.content) (routine j)
  have chainCalled (j) : (b₁.write is).ChainCalled j ↔ b₁.ChainCalled j := by
    unfold ChainCalled callees routineDependencies
    rw [b₁.order_write, funext (b₁.rulesOf_write is)]
  have features : (b₁.write is).features = b.features :=
    (congrArg (·.features) (b₁.rest_write is)).trans (congrArg (·.features) hr.rest)
  have calls (tag l) : (b₁.write is).FeatureCalls tag l ↔ b.FeatureCalls tag l := by
    unfold FeatureCalls
    rw [features]
  refine ⟨⟨?_, ?_, ?_, ?_, ?_, ?_, ?_, ?_, ruleIds, fun i => congrArg (·.languages) (routine i)⟩, ?_⟩
  · intro u id g
    rw [b₁.rule_write, b₁.rule_write]
    exact coherent u id g
  · rw [b₁.order_write]
    exact order.nodup hbase.nodup
  · rwa [b₁.order_write, size]
  · rw [size, rules]
    intro i hi
    obtain ⟨ids, hids, hlt⟩ := hbase.plain i hi
    exact ⟨ids, (congrArg (·.content) (routine i)).trans hids, hlt⟩
  · intro id hid l hl
    rw [allRules, b₁.order_write, funext (b₁.ruleIds_write is)] at hid
    rw [b₁.rule_write] at hl
    obtain ⟨n, j, rfl, hj, hname⟩ := h.resolved hbase hr chains hid hl
    have same : ((b₁.write is).routine j).name = (b₁.routine j).name := congrArg (·.name) (b₁.uncounted_write is j)
    exact ⟨n, j, rfl, b₁.order_write is ▸ hj, by rwa [same]⟩
  · intro i hi
    rw [b₁.order_write] at hi
    rw [b₁.usecount_write is (by rw [hr.size, h.size]; exact within i hi), chainCalled]
    split
    · next hmem => simp [(written i).1 hmem, alwaysWritten]
    · next hmem =>
      have hnot : ¬b₁.ChainCalled i := fun hcalled => hmem ((written i).2 hcalled)
      rw [(hr.counts i).resolve_right hnot, h.counts]
      simp only [hnot, not_false_eq_true, and_true]
      exact_mod_cast Iff.rfl
  · intro tag l hl
    obtain ⟨n, i, hl, hi⟩ := h.refs tag l ((calls tag l).1 hl)
    exact ⟨n, i, hl, b₁.order_write is ▸ hr.order.subset hi⟩
  · intro tag i
    simp only [calls]
    exact h.calls tag i
  · rw [b₁.order_write, range_eq_range']
    exact perm_arranged (fun p a ha => orderable.mem_ahead ha) (Nat.zero_add _)

end GlyphRules
