import GlyphRules.Proofs.Book.CallsFirst
import GlyphRules.Proofs.Book.Layers

/-! Resolving calls.

`Act.resolveAll` makes every call of a chain in force a reference to a routine in force. A routine
that is called and not in force is put there, behind all others, so that its chains are resolved
too. Meanwhile (`Resolving`) each call stays or is resolved, and use counts change only by calls of
chains. -/
namespace GlyphRules

open Step List Rule Lookup Calls Book

variable {b b' : Book} {i j : RoutineId} {c : Chaining} {id : RuleId}

/-! ### Calls of chains -/

/-- A name that is missing or empty. -/
def Unnamed (n : Option String) : Prop := n.getD "" = ""

def Book.ChainCalled (b : Book) (j : RoutineId) : Prop := ∃ i ∈ b.order, j ∈ b.callees i
deriving Decidable

lemma Book.chainCalled_iff : b.ChainCalled j ↔ ∃ id ∈ b.allRules, some j ∈ Book.dependencies (b.rule id) := by
  constructor
  · rintro ⟨i, hi, hj⟩
    obtain ⟨r, hr, hj⟩ := mem_flatMap.1 (mem_callees.1 hj)
    obtain ⟨id, hid, rfl⟩ := mem_map.1 hr
    exact ⟨id, mem_flatMap.2 ⟨i, hi, hid⟩, hj⟩
  · rintro ⟨id, hid, hj⟩
    obtain ⟨i, hi, hid⟩ := mem_flatMap.1 hid
    exact ⟨i, hi, mem_callees.2 (mem_flatMap.2 ⟨_, mem_map_of_mem hid, hj⟩)⟩

/-! ### Routines that come in force -/

/-- A routine comes in force: it is, or a chain of a routine that comes in force calls it as it stands. -/
inductive Book.Comes (b : Book) : RoutineId → Prop where
  | inForce {i : RoutineId} (hi : i ∈ b.order) : b.Comes i
  | called {i j : RoutineId} {id : RuleId} (hi : b.Comes i) (hid : id ∈ b.ruleIds i)
      (hj : .bare j ∈ (b.rule id).chained.entries) : b.Comes j

/-- Routines were put in force behind those that were: each once, and only some that there are. -/
def Joined (b b' : Book) : Prop :=
  ∃ new, b'.order = b.order ++ new ∧ new.Nodup ∧ ∀ j ∈ new, j ∉ b.order ∧ j < b.routines.size

namespace Joined
variable {b'' : Book}

lemma of_order (h : b'.order = b.order) : Joined b b' := ⟨[], by simp [h], nodup_nil, by simp⟩

section
variable (h : Joined b b')
include h

lemma trans (h' : Joined b' b'') (hsize : b'.routines.size = b.routines.size) : Joined b b'' := by
  obtain ⟨new, horder, hnodup, hnew⟩ := h
  obtain ⟨new', horder', hnodup', hnew'⟩ := h'
  refine ⟨new ++ new', by rw [horder', horder, append_assoc], ?_, fun j hj => ?_⟩
  · refine nodup_append.2 ⟨hnodup, hnodup', ?_⟩
    rintro j hj _ hj' rfl
    exact (hnew' j hj').1 (by simp [horder, hj])
  · rcases mem_append.1 hj with hj | hj
    · exact hnew j hj
    · obtain ⟨hout, hlt⟩ := hnew' j hj
      exact ⟨fun h => hout (by simp [horder, h]), hsize ▸ hlt⟩

lemma subset (hj : j ∈ b.order) : j ∈ b'.order := by
  obtain ⟨new, horder, -⟩ := h
  simp [horder, hj]

lemma take (hn : n ≤ b.order.length) : b'.order.take n = b.order.take n := by
  obtain ⟨new, horder, -⟩ := h
  rw [horder, take_append_of_le_length hn]

lemma nodup (hnodup : b.order.Nodup) : b'.order.Nodup := by
  obtain ⟨new, horder, hnew, hout⟩ := h
  rw [horder]
  refine nodup_append.2 ⟨hnodup, hnew, ?_⟩
  rintro j hj _ hj' rfl
  exact (hout j hj').1 hj

lemma length_le : b'.order.length ≤ b.order.length + b.routines.size := by
  obtain ⟨new, horder, hnodup, hnew⟩ := h
  have hsubset : new ⊆ List.range b.routines.size := fun j hj => mem_range.2 (hnew j hj).2
  have := (subperm_of_subset hnodup hsubset).length_le
  rw [length_range] at this
  rw [horder, length_append]
  exact Nat.add_le_add_left this _

end

end Joined

/-- What is in force stays so, and routines keep their names. -/
structure Book.Extends (b b' : Book) : Prop where
  order : ∀ i ∈ b.order, i ∈ b'.order
  name : ∀ i, (b'.routine i).name = (b.routine i).name

lemma Called.extend {calls} (h : Called b b' id calls) : b.Extends b' :=
  ⟨fun _ hi => OnlyRules.order h.rest ▸ hi, fun j => by rw [h.routine]⟩

/-! ### One call after the other -/

/-- What a call becomes: a reference to a routine in force, which is the one that was called if that was
known. It is the call itself, if that has a name, or bears the name of the routine. -/
def Lookup.Resolves (b : Book) (l l' : Lookup) : Prop :=
  ∃ n i, l' = .ref ⟨some n, some i⟩ ∧ i ∈ b.order ∧ (l.routine? = some i ∨ l.routine? = none) ∧
    (l = l' ∧ ¬Unnamed n ∨ n = (b.routine i).name)

/-- A call that is resolved: a reference to a routine in force, with the name of the routine unless it has one
of its own. -/
def Lookup.Settled (b : Book) (l : Lookup) : Prop :=
  ∃ n i, l = .ref ⟨some n, some i⟩ ∧ i ∈ b.order ∧ (Unnamed n → n = (b.routine i).name)

lemma Lookup.Settled.mono {l : Lookup} (h : l.Settled b) (hb : b.Extends b') : l.Settled b' := by
  obtain ⟨n, i, rfl, hi, hn⟩ := h
  exact ⟨n, i, rfl, hb.order i hi, by rwa [hb.name]⟩

namespace Lookup.Resolves
variable {l l' l'' : Lookup}

section
variable (h : l.Resolves b l')
include h

lemma mono (hb : b.Extends b') : l.Resolves b' l' := by
  obtain ⟨n, i, hl', hi, hroutine, heq⟩ := h
  exact ⟨n, i, hl', hb.order i hi, hroutine, by rwa [hb.name]⟩

lemma trans (h' : l'.Resolves b' l'') (hb : b.Extends b') : l.Resolves b' l'' := by
  obtain ⟨n, i, rfl, -, hroutine, heq⟩ := h
  obtain ⟨n', i', rfl, hi', hroutine', heq'⟩ := h'
  obtain rfl : i = i' := by simpa [routine?] using hroutine'
  refine ⟨n', i, rfl, hi', hroutine, ?_⟩
  rcases heq' with ⟨heq', -⟩ | hn'
  · cases heq'
    rwa [hb.name]
  · exact .inr hn'

lemma settled : l'.Settled b := by
  obtain ⟨n, i, rfl, hi, -, hname⟩ := h
  exact ⟨n, i, rfl, hi, fun hn => hname.resolve_left fun heq => heq.2 hn⟩

lemma routine (hk : l.routine? = some k) : l'.routine? = some k := by
  obtain ⟨n, i, rfl, -, hroutine, -⟩ := h
  rcases hroutine with hi | hi
  · exact hi.symm.trans hk
  · rw [hi] at hk
    cases hk

end

end Lookup.Resolves

/-- The routine without the count of its uses. -/
def Routine.uncounted (r : Routine) : Routine := { r with usecount := 0 }

/-- Calls were made references: routines came in force and uses were counted. -/
structure Referred (b b' : Book) (ls : List Lookup) : Prop where
  rest : { b' with routines := b.routines, order := b.order } = b
  order : Joined b b'
  size : b'.routines.size = b.routines.size
  routine : ∀ j, (b'.routine j).uncounted = (b.routine j).uncounted
  counts : ∀ j, (b'.routine j).usecount = (b.routine j).usecount ∨ .bare j ∈ ls
  came : ∀ j ∈ b'.order, j ∈ b.order ∨ .bare j ∈ ls

namespace Referred
variable {b'' : Book} {ls ls' : List Lookup}

lemma refl (b) (ls) : Referred b b ls :=
  ⟨rfl, .of_order rfl, rfl, fun _ => rfl, fun _ => .inl rfl, fun _ => .inl⟩

section
variable (h : Referred b b' ls)
include h

lemma trans (h' : Referred b' b'' ls') : Referred b b'' (ls ++ ls') := by
  refine ⟨?_, h.order.trans h'.order h.size, h'.size.trans h.size, fun j => (h'.routine j).trans (h.routine j),
    fun j => ?_, fun j hj => ?_⟩
  · rw [← h.rest, ← h'.rest]
  · rcases h'.counts j with heq | hmem
    · rw [heq]
      exact (h.counts j).imp_right (mem_append_left _)
    · exact .inr (mem_append_right _ hmem)
  · rcases h'.came j hj with hj | hmem
    · exact (h.came j hj).imp_right (mem_append_left _)
    · exact .inr (mem_append_right _ hmem)

lemma rules : b'.rules = b.rules := by rw [← h.rest]

lemma rule (id) : b'.rule id = b.rule id :=
  rule_of_eq h.rules id

lemma extend : b.Extends b' :=
  ⟨fun _ => h.order.subset, fun j => congrArg (·.name) (h.routine j)⟩

end

end Referred

lemma Book.enforce_spec (hi : i < b.routines.size) :
    { b.enforce i with order := b.order } = b ∧ Joined b (b.enforce i) ∧ i ∈ (b.enforce i).order := by
  unfold enforce
  by_cases h : i ∈ b.order
  · rw [if_pos (by simpa using h)]
    exact ⟨rfl, .of_order rfl, h⟩
  · rw [if_neg (by simpa using h)]
    exact ⟨rfl, ⟨[i], rfl, by simp, by simpa using ⟨h, hi⟩⟩, by simp⟩

lemma Book.mem_enforce : j ∈ (b.enforce i).order ↔ j ∈ b.order ∨ j = i := by
  rw [enforce, apply_ite order]
  exact mem_ifNew

lemma Book.referTo_spec (hi : i < b.routines.size) :
    Referred b (b.referTo i).2 [.bare i] ∧ i ∈ (b.referTo i).2.order ∧
      (b.referTo i).1 = ⟨some ((b.referTo i).2.routine i).name, some i⟩ := by
  obtain ⟨rest, order, hmem⟩ := enforce_spec hi
  have routines : (b.enforce i).routines = b.routines := congrArg (·.routines) rest
  have routine := routine_of_eq routines
  refine ⟨⟨?_, order, ?_, fun j => ?_, fun j => ?_, fun j hj => ?_⟩, hmem, rfl⟩
  · exact congrArg (fun x => { x with routines := b.routines }) rest
  · exact ((b.enforce i).size_alterRoutine i _).trans (congrArg Array.size routines)
  · rw [← routine j]
    have same (r : Routine) : r.usedAgain.uncounted = r.uncounted := rfl
    exact (b.enforce i).routine_alterRoutine_eq i same j
  · by_cases hj : j = i
    · exact .inr (by simp [hj])
    · refine .inl ?_
      rw [← routine j]
      exact congrArg (·.usecount) ((b.enforce i).routine_alterRoutine_ne hj _)
  · exact (mem_enforce.1 hj).imp_right fun hj => by simp [hj]

lemma Book.resolve_eq_ok (h : b.resolve r = .ok r') :
    ∃ n i, r' = ⟨some n, some i⟩ ∧ (r.routine = some i ∨ r.routine = none) ∧
      (r = r' ∧ ¬Unnamed n ∨ n = (b.routine i).name) := by
  obtain ⟨name, routine⟩ := r
  unfold resolve at h
  cases routine with
  | some i =>
    rcases name with _ | n
    · cases h
    · simp only at h
      split at h
      · cases h
      · cases h
        exact ⟨_, i, rfl, .inl rfl, .inr rfl⟩
      · cases h
        exact ⟨_, i, rfl, .inl rfl, .inr rfl⟩
      · next hnone hempty =>
        cases h
        refine ⟨n, i, rfl, .inl rfl, .inl ⟨rfl, fun hn => ?_⟩⟩
        rcases n with _ | s
        · exact hnone rfl
        · exact hempty (congrArg some (congrArg some hn))
  | none =>
    rcases name with _ | n
    · cases h
    · simp only at h
      cases hfound : b.routineNamed? n with
      | none =>
        rw [hfound] at h
        cases h
      | some i =>
        have named : (b.routine i).name = n := by simpa using List.find?_some hfound
        rw [hfound] at h
        simp only at h
        split at h <;> cases h <;> simp [named]

namespace Act

lemma resolveLookup_on {l l' : Lookup} (hl : ∀ j, l = .bare j → j < b.routines.size)
    (hrun : (resolveLookup l).on b = (.ok l', b')) : Referred b b' [l] ∧ l.Resolves b' l' := by
  cases l with
  | bare i =>
    obtain ⟨referred, hi, href⟩ := referTo_spec (hl i rfl)
    cases hrun
    exact ⟨referred, _, i, congrArg ref href, hi, .inl rfl, .inr rfl⟩
  | ref r =>
    rw [resolveLookup, on_get_bind] at hrun
    obtain ⟨r', t, hr', hrun⟩ := on_bind_eq_ok hrun
    rw [on_ofExcept] at hr'
    obtain ⟨hresolve, rfl⟩ := Prod.mk.inj hr'
    obtain ⟨n, i, rfl, hroutine, hname⟩ := resolve_eq_ok hresolve
    rw [on_get_bind] at hrun
    split at hrun
    · next hin =>
      cases hrun
      exact ⟨.refl _ _, n, i, rfl, by simpa using hin, hroutine, hname.imp_left (.imp_left (congrArg ref))⟩
    · cases hrun

lemma mapM_resolveLookup_on (hls : ∀ j, .bare j ∈ ls → j < b.routines.size)
    (hrun : (ls.mapM resolveLookup).on b = (.ok ls', b')) :
    Referred b b' ls ∧ Forall₂ (Resolves b') ls ls' := by
  induction ls generalizing b ls' with
  | nil =>
    cases hrun
    exact ⟨.refl _ _, .nil⟩
  | cons l ls ih =>
    obtain ⟨l', b₁, ls', hl, hrest, rfl⟩ := on_mapM_cons hrun
    obtain ⟨referred, resolves⟩ := resolveLookup_on (fun j hj => hls j (by simp [hj])) hl
    obtain ⟨referred', resolves'⟩ := ih (fun j hj => referred.size ▸ hls j (by simp [hj])) hrest
    exact ⟨referred.trans referred', .cons (resolves.mono referred'.extend) resolves'⟩

end Act

/-! ### One position after the other -/

/-- What becomes of the calls at a position: they stay, an empty position calls nothing, or each
call is resolved. -/
inductive PositionResolves (b : Book) : Option (List Lookup) → Option (List Lookup) → Prop where
  | same (slot : Option (List Lookup)) : PositionResolves b slot slot
  | empty : PositionResolves b (some []) none
  | calls {ls ls' : List Lookup} (h : Forall₂ (Lookup.Resolves b) ls ls') :
      PositionResolves b (some ls) (some ls')

def PositionResolved (b : Book) : Option (List Lookup) → Prop
  | none => True
  | some ls => ls ≠ [] ∧ ∀ l ∈ ls, l.Settled b

namespace PositionResolves
variable {slot slot' slot'' : Option (List Lookup)}

lemma trans (h : PositionResolves b slot slot') (h' : PositionResolves b' slot' slot'') (hb : b.Extends b') :
    PositionResolves b' slot slot'' := by
  cases h with
  | same => exact h'
  | empty =>
    cases h'
    exact .empty
  | calls h =>
    cases h' with
    | same => exact .calls (h.imp fun _ _ h => h.mono hb)
    | empty =>
      cases h
      exact .empty
    | calls h' => exact .calls (forall₂_trans (fun h h' => h.trans h' hb) h h')

lemma resolved (h : PositionResolves b' slot slot') (hslot : PositionResolved b slot) (hb : b.Extends b') :
    PositionResolved b' slot' := by
  cases h with
  | same =>
    cases slot with
    | none => trivial
    | some ls => exact ⟨hslot.1, fun l hl => (hslot.2 l hl).mono hb⟩
  | empty => trivial
  | calls h =>
    refine ⟨fun hnil => hslot.1 ?_, fun l' hl' => ?_⟩
    · subst hnil
      cases h
      rfl
    · obtain ⟨l, -, hresolves⟩ := forall₂_mem_right h hl'
      exact hresolves.settled

end PositionResolves

/-- A rule changes nothing but the calls of a chain, and these position by position. -/
inductive RuleResolves (b : Book) (r : Rule) : Rule → Prop where
  | same : RuleResolves b r r
  | calls {c : Chaining} {calls : Calls} (hc : r.body = .chaining c)
      (h : Forall₂ (PositionResolves b) c.calls calls) : RuleResolves b r (r.withCalls calls)

namespace RuleResolves
variable {r r' r'' : Rule}

lemma body_withCalls (hc : r.body = .chaining c) (calls) :
    (r.withCalls calls).body = .chaining { c with calls } := by
  rw [withCalls, hc]

section
variable (h : RuleResolves b r r')
include h

lemma positions : Forall₂ (PositionResolves b) r.chained r'.chained := by
  cases h with
  | same => exact List.forall₂_same.2 fun slot _ => .same slot
  | calls hc h =>
    rwa [chained_chaining hc, chained_chaining (body_withCalls hc _)]

lemma chaining (hc : r.body = .chaining c) :
    ∃ calls, r'.body = .chaining { c with calls } ∧ c.calls.length = calls.length := by
  cases h with
  | same => exact ⟨c.calls, hc, rfl⟩
  | calls hc' h =>
    cases hc.symm.trans hc'
    exact ⟨_, body_withCalls hc _, h.length_eq⟩

lemma trans (h' : RuleResolves b' r' r'') (hb : b.Extends b') : RuleResolves b' r r'' := by
  cases h with
  | same => exact h'
  | calls hc h =>
    cases h' with
    | same => exact .calls hc (h.imp fun _ slot h => h.trans (.same slot) hb)
    | calls hc' h' =>
      cases (body_withCalls hc _).symm.trans hc'
      rw [withCalls_withCalls]
      exact .calls hc (forall₂_trans (fun h h' => h.trans h' hb) h h')

lemma dependencies (hk : some k ∈ dependencies r) : some k ∈ dependencies r' := by
  rw [dependencies_eq] at hk ⊢
  obtain ⟨l, hl, hroutine⟩ := mem_map.1 hk
  obtain ⟨ls, hls, hl⟩ := mem_entries.1 hl
  obtain ⟨slot', hslot', hposition⟩ := forall₂_mem_left h.positions hls
  cases hposition with
  | same => exact mem_map.2 ⟨l, mem_entries.2 ⟨ls, hslot', hl⟩, hroutine⟩
  | empty => cases hl
  | calls hcalls =>
    obtain ⟨l', hl', hresolves⟩ := forall₂_mem_left hcalls hl
    exact mem_map.2 ⟨l', mem_entries.2 ⟨_, hslot', hl'⟩, hresolves.routine hroutine⟩

lemma bare (hj : .bare j ∈ r'.chained.entries) : .bare j ∈ r.chained.entries := by
  obtain ⟨ls', hls', hj⟩ := mem_entries.1 hj
  obtain ⟨slot, hslot, hposition⟩ := forall₂_mem_right h.positions hls'
  cases hposition with
  | same => exact mem_entries.2 ⟨ls', hslot, hj⟩
  | calls hcalls =>
    obtain ⟨l, -, n, i, hl, -⟩ := forall₂_mem_right hcalls hj
    cases hl

end

end RuleResolves

/-! ### What a book keeps -/

structure Resolving (b b' : Book) : Prop where
  rest : { b' with routines := b.routines, rules := b.rules, order := b.order } = b
  order : Joined b b'
  size : b'.routines.size = b.routines.size
  routine : ∀ j, (b'.routine j).uncounted = (b.routine j).uncounted
  counts : ∀ j, (b'.routine j).usecount = (b.routine j).usecount ∨ b'.ChainCalled j
  rules : b'.rules.size = b.rules.size
  rule : ∀ id, RuleResolves b' (b.rule id) (b'.rule id)
  came : ∀ j ∈ b'.order, b.Comes j

/-- Routines that are called as they stand exist. -/
def Book.BareWithin (b : Book) : Prop :=
  ∀ id j, .bare j ∈ (b.rule id).chained.entries → j < b.routines.size

def Book.ChainResolved (b : Book) (id : RuleId) : Prop := ∀ slot ∈ (b.rule id).chained, PositionResolved b slot

lemma Book.CallsWithin.bareWithin (h : b.CallsWithin) : b.BareWithin := by
  intro id j hj
  refine h id j ?_
  rw [dependencies_eq]
  exact mem_map.2 ⟨_, hj, rfl⟩

namespace Resolving
variable {b'' : Book}

lemma refl (b) : Resolving b b :=
  ⟨rfl, .of_order rfl, rfl, fun _ => rfl, fun _ => .inl rfl, rfl, fun _ => .same, fun _ => .inForce⟩

section
variable (h : Resolving b b')
include h

lemma extend : b.Extends b' :=
  ⟨fun _ => h.order.subset, fun j => congrArg (·.name) (h.routine j)⟩

lemma ruleIds (i) : b'.ruleIds i = b.ruleIds i :=
  ruleIds_of_content h.size (fun j => congrArg (·.content) (h.routine j)) i

lemma mem_allRules (hid : id ∈ b.allRules) : id ∈ b'.allRules := by
  obtain ⟨i, hi, hid⟩ := mem_flatMap.1 hid
  exact mem_flatMap.2 ⟨i, h.order.subset hi, h.ruleIds i ▸ hid⟩

lemma chainCalled (hj : b.ChainCalled j) : b'.ChainCalled j := by
  obtain ⟨id, hid, hj⟩ := chainCalled_iff.1 hj
  exact chainCalled_iff.2 ⟨id, h.mem_allRules hid, (h.rule id).dependencies hj⟩

/-- What comes in force later would have come in force before. -/
lemma comes (hj : b'.Comes j) : b.Comes j := by
  induction hj with
  | inForce hi => exact h.came _ hi
  | called _ hid hj ih => exact .called ih (h.ruleIds _ ▸ hid) ((h.rule _).bare hj)

lemma trans (h' : Resolving b' b'') : Resolving b b'' := by
  refine ⟨?_, h.order.trans h'.order h.size, h'.size.trans h.size, fun j => (h'.routine j).trans (h.routine j),
    fun j => ?_, h'.rules.trans h.rules,
    fun id => (h.rule id).trans (h'.rule id) h'.extend, fun j hj => h.comes (h'.came j hj)⟩
  · rw [← h.rest, ← h'.rest]
  · rcases h'.counts j with heq | hcalled
    · rw [heq]
      exact (h.counts j).imp_right h'.chainCalled
    · exact .inr hcalled

lemma bareWithin (hb : b.BareWithin) : b'.BareWithin :=
  fun id j hj => h.size ▸ hb id j ((h.rule id).bare hj)

lemma chainResolved (hid : b.ChainResolved id) : b'.ChainResolved id := by
  intro slot' hslot'
  obtain ⟨slot, hslot, hposition⟩ := forall₂_mem_right (h.rule id).positions hslot'
  exact hposition.resolved (hid slot hslot) h.extend

end

/-- Calls of a chain in force were made references, and these were set in its group. -/
lemma of_called {ls} {calls} (hb : b.Coherent) (hid : id ∈ b.allRules)
    (hc : (b.rule id).body = .chaining c) (referred : Referred b b₁ ls)
    (hls : ∀ l ∈ ls, l ∈ (b.rule id).chained.entries) (called : Called b₁ b' id calls)
    (hcalls : Forall₂ (PositionResolves b₁) c.calls calls) : Resolving b b' ∧ b'.Coherent := by
  have hb₁ : b₁.Coherent := by
    intro u x g
    rw [referred.rule, referred.rule]
    exact hb u x g
  have order := OnlyRules.order called.rest
  have routine := called.routine
  have positions : Forall₂ (PositionResolves b') c.calls calls :=
    hcalls.imp fun _ slot h => h.trans (.same slot) called.extend
  have rule (x) : RuleResolves b' (b.rule x) (b'.rule x) := by
    rw [called.rule, referred.rule]
    split
    · next hshares =>
      -- A chain of the group makes the same calls, so it takes the same step.
      obtain ⟨c', hc', heq⟩ := hb₁.alike (referred.rule id ▸ hc) hshares
      rw [referred.rule] at hc'
      exact .calls hc' (heq ▸ positions)
    · exact .same
  have size : b'.routines.size = b.routines.size := by rw [called.routines, referred.size]
  have ruleIds := ruleIds_of_content size fun j => by
    rw [routine]
    exact congrArg (·.content) (referred.routine j)
  refine ⟨⟨?_, ?_, ?_, fun j => ?_, fun j => ?_, ?_, rule, fun j hj => ?_⟩, hb₁.of_called called⟩
  · calc { b' with routines := b.routines, rules := b.rules, order := b.order }
      _ = { b₁ with routines := b.routines, rules := b.rules, order := b.order } :=
        congrArg (fun x => { x with routines := b.routines, rules := b.rules, order := b.order }) called.rest
      _ = b := congrArg (fun x => { x with rules := b.rules }) referred.rest
  · obtain ⟨new, hnew⟩ := referred.order
    exact ⟨new, order ▸ hnew⟩
  · exact size
  · rw [routine, referred.routine]
  · rw [routine]
    refine (referred.counts j).imp_right fun hj => chainCalled_iff.2 ⟨id, ?_, (rule id).dependencies ?_⟩
    · obtain ⟨i, hi, hid⟩ := mem_flatMap.1 hid
      exact mem_flatMap.2 ⟨i, order ▸ referred.order.subset hi, ruleIds i ▸ hid⟩
    · rw [dependencies_eq]
      exact mem_map.2 ⟨_, hls _ hj, rfl⟩
  · rw [called.size, referred.rules]
  · rcases referred.came j (order ▸ hj) with hj | hj
    · exact .inForce hj
    · obtain ⟨i, hi, hid⟩ := mem_flatMap.1 hid
      exact .called (.inForce hi) hid (hls _ hj)

end Resolving

/-! ### The run -/

lemma Rule.mem_entries_of_getElem? {r : Rule} {l} {slot} {ix : Nat}
    (hc : r.body = .chaining c) (hat : c.calls[ix]? = some slot) (hl : l ∈ slot.getD []) : l ∈ r.chained.entries := by
  rw [chained_chaining hc]
  cases slot with
  | none => cases hl
  | some ls => exact mem_entries.2 ⟨ls, mem_of_getElem? hat, hl⟩

namespace Act

lemma resolveSlot_on (hslot : ∀ j, .bare j ∈ slot.getD [] → j < b.routines.size)
    (hrun : (resolveSlot slot).on b = (.ok slot', b')) :
    Referred b b' (slot.getD []) ∧ PositionResolves b' slot slot' ∧ PositionResolved b' slot' := by
  match slot, hrun with
  | none, hrun =>
    cases hrun
    exact ⟨.refl _ _, .same none, trivial⟩
  | some [], hrun =>
    cases hrun
    exact ⟨.refl _ _, .empty, trivial⟩
  | some (l :: ls), hrun =>
    obtain ⟨ls', _, hls, hrun⟩ := on_bind_eq_ok hrun
    cases hrun
    obtain ⟨referred, resolves⟩ := mapM_resolveLookup_on hslot hls
    refine ⟨referred, .calls resolves, ?_, fun l' hl' => ?_⟩
    · rintro rfl
      cases resolves
    · obtain ⟨_, -, hresolves⟩ := forall₂_mem_right resolves hl'
      exact hresolves.settled

lemma resolveAt_on (hb : b.Coherent) (hbare : b.BareWithin) (hid : id ∈ b.allRules)
    (hc : (b.rule id).body = .chaining c) (hix : ix < c.calls.length) (hrun : (resolveAt id ix).on b = (.ok (), b')) :
    Resolving b b' ∧ b'.Coherent ∧ ∃ slot, (b'.rule id).chained[ix]? = some slot ∧ PositionResolved b' slot := by
  rw [resolveAt, on_get_bind, calls_chaining hc, Option.getD_some] at hrun
  obtain ⟨slot', b₁, hslot, hrun⟩ := on_bind_eq_ok hrun
  obtain ⟨slot, hat⟩ : ∃ slot, c.calls[ix]? = some slot := ⟨_, List.getElem?_eq_getElem hix⟩
  have hgetD : c.calls.getD ix none = slot := by simp [hat]
  rw [hgetD] at hslot
  have entries l := mem_entries_of_getElem? (l := l) hc hat
  obtain ⟨referred, resolves, resolved⟩ := resolveSlot_on (fun j hj => hbare id j (entries _ hj)) hslot
  have hc₁ : (b₁.rule id).body = .chaining c := by rw [referred.rule, hc]
  rw [on_modify, calls_chaining hc₁, Option.getD_some] at hrun
  cases hrun
  have called := Called.of_setCalls (lt_of_chaining hc₁) (c.calls.set ix slot')
  obtain ⟨resolving, coherent⟩ := Resolving.of_called hb hid hc referred entries called (forall₂_set .same hat resolves)
  refine ⟨resolving, coherent, slot', ?_, ?_⟩
  · rw [called.rule, if_pos (shares_iff.2 (.inl rfl)), chained_chaining (RuleResolves.body_withCalls hc₁ _)]
    simp [hix]
  · exact (PositionResolves.same slot').resolved resolved called.extend

lemma resolveCalls_on (hb : b.Coherent) (hbare : b.BareWithin) (hid : id ∈ b.allRules)
    (hrun : (resolveCalls id).on b = (.ok (), b')) : Resolving b b' ∧ b'.Coherent ∧ b'.ChainResolved id := by
  rw [resolveCalls, on_get_bind] at hrun
  split at hrun
  · next c hc =>
    let Inv (done : List Nat) (b' : Book) : Prop := Resolving b b' ∧ b'.Coherent ∧
      ∀ ix ∈ done, ∃ slot, (b'.rule id).chained[ix]? = some slot ∧ PositionResolved b' slot
    have step {done ix todo s t} (hsplit : List.range c.calls.length = done ++ ix :: todo) (hs : Inv done s)
        (hstep : (resolveAt id ix).on s = (.ok (), t)) : Inv (done ++ [ix]) t := by
      obtain ⟨resolving, coherent, slots⟩ := hs
      obtain ⟨calls, hcalls, length⟩ := (resolving.rule id).chaining hc
      have hix : ix < calls.length := by
        rw [← length]
        exact mem_range.1 (by simp [hsplit])
      obtain ⟨resolving', coherent', slot⟩ :=
        resolveAt_on coherent (resolving.bareWithin hbare) (resolving.mem_allRules hid) hcalls hix hstep
      refine ⟨resolving.trans resolving', coherent', fun ix' hix' => ?_⟩
      rcases mem_append.1 hix' with hix' | hix'
      · obtain ⟨slot, hslot, resolved⟩ := slots ix' hix'
        obtain ⟨slot', hslot', position⟩ := forall₂_getElem?_left (resolving'.rule id).positions hslot
        exact ⟨slot', hslot', position.resolved resolved resolving'.extend⟩
      · rwa [mem_singleton.1 hix']
    obtain ⟨resolving, coherent, slots⟩ := on_forM_invariant Inv step ⟨.refl b, hb, by simp⟩ hrun
    refine ⟨resolving, coherent, fun slot hslot => ?_⟩
    obtain ⟨ix, hix⟩ := mem_iff_getElem?.1 hslot
    have length := (resolving.rule id).positions.length_eq
    rw [chained_chaining hc] at length
    have hlt : ix < c.calls.length := length ▸ (List.getElem?_eq_some_iff.1 hix).1
    obtain ⟨slot', hslot', resolved⟩ := slots ix (mem_range.2 hlt)
    cases hix.symm.trans hslot'
    exact resolved
  · next hc =>
    cases hrun
    refine ⟨.refl _, hb, fun slot hslot => ?_⟩
    rw [chained_of_ne hc] at hslot
    cases hslot

lemma forM_resolveCalls_on {ids : List RuleId} (hb : b.Coherent) (hbare : b.BareWithin)
    (hids : ∀ id ∈ ids, id ∈ b.allRules) (hrun : (ids.forM resolveCalls).on b = (.ok (), b')) :
    Resolving b b' ∧ b'.Coherent ∧ ∀ id ∈ ids, b'.ChainResolved id := by
  let Inv (done : List RuleId) (b' : Book) : Prop := Resolving b b' ∧ b'.Coherent ∧ ∀ id ∈ done, b'.ChainResolved id
  have step {done id todo s t} (hsplit : ids = done ++ id :: todo) (hs : Inv done s)
      (hstep : (resolveCalls id).on s = (.ok (), t)) : Inv (done ++ [id]) t := by
    obtain ⟨resolving, coherent, chains⟩ := hs
    have hid := resolving.mem_allRules (hids id (by simp [hsplit]))
    obtain ⟨resolving', coherent', chain⟩ := resolveCalls_on coherent (resolving.bareWithin hbare) hid hstep
    refine ⟨resolving.trans resolving', coherent', fun id' hid' => ?_⟩
    rcases mem_append.1 hid' with hid' | hid'
    · exact resolving'.chainResolved (chains id' hid')
    · rwa [mem_singleton.1 hid']
  exact on_forM_invariant Inv step ⟨.refl b, hb, by simp⟩ hrun

/-- The routines from a place on are resolved, as far as the fuel goes. -/
lemma resolveFrom_on {fuel n} (hb : b.Coherent) (hbare : b.BareWithin)
    (hdone : ∀ i ∈ b.order.take n, ∀ id ∈ b.ruleIds i, b.ChainResolved id)
    (hrun : (resolveFrom fuel n).on b = (.ok (), b')) :
    Resolving b b' ∧ b'.Coherent ∧ ∀ i ∈ b'.order.take (n + fuel), ∀ id ∈ b'.ruleIds i, b'.ChainResolved id := by
  induction fuel generalizing b n with
  | zero =>
    cases hrun
    exact ⟨.refl _, hb, hdone⟩
  | succ fuel ih =>
    rw [resolveFrom, on_get_bind] at hrun
    split at hrun
    · next hend =>
      cases hrun
      have hle := List.getElem?_eq_none_iff.1 hend
      rw [take_of_length_le hle] at hdone
      rw [take_of_length_le (hle.trans (Nat.le_add_right _ _))]
      exact ⟨.refl _, hb, hdone⟩
    · next i hi =>
      obtain ⟨_, b₁, hrules, hrun⟩ := on_bind_eq_ok hrun
      have hmem : i ∈ b.order := mem_of_getElem? hi
      obtain ⟨resolving, coherent, chains⟩ :=
        forM_resolveCalls_on hb hbare (fun id hid => mem_flatMap.2 ⟨i, hmem, hid⟩) hrules
      have hn : n + 1 ≤ b.order.length := (List.getElem?_eq_some_iff.1 hi).1
      have hdone' (j) (hj : j ∈ b₁.order.take (n + 1)) (id) (hid : id ∈ b₁.ruleIds j) : b₁.ChainResolved id := by
        rw [resolving.order.take hn, take_add_one, hi] at hj
        rw [resolving.ruleIds] at hid
        rcases mem_append.1 hj with hj | hj
        · exact resolving.chainResolved (hdone j hj id hid)
        · obtain rfl : j = i := by simpa using hj
          exact chains id hid
      obtain ⟨resolving', coherent', done⟩ := ih coherent (resolving.bareWithin hbare) hdone' hrun
      rw [Nat.add_right_comm] at done
      exact ⟨resolving.trans resolving', coherent', done⟩

lemma resolveAll_on (hb : b.Coherent) (hbare : b.BareWithin) (hrun : resolveAll.on b = (.ok (), b')) :
    Resolving b b' ∧ b'.Coherent ∧ ∀ id ∈ b'.allRules, b'.ChainResolved id := by
  obtain ⟨resolving, coherent, chains⟩ := resolveFrom_on hb hbare (by simp) hrun
  refine ⟨resolving, coherent, fun id hid => ?_⟩
  obtain ⟨i, hi, hid⟩ := mem_flatMap.1 hid
  rw [Nat.zero_add, take_of_length_le (resolving.order.length_le.trans (Nat.le_succ _))] at chains
  exact chains i hi id hid

end Act

end GlyphRules
