import Mathlib.Data.Nat.Find
import Mathlib.Data.List.Perm.Basic
import GlyphRules.Book.CallOrder
import GlyphRules.Proofs.Book.LookupTypes
import GlyphRules.Proofs.Book.Resolve

/-! The order in which routines are written.

`Act.callOrder` moves what the routine at each place, from the last on, calls from further on in
front of it. So it writes for each place, from the first on, what that calls from further on, the
last call first, and then the place itself, nothing twice (`before_arranged`). A place that its
first caller fetches may come to stand in front of what it calls; `callOrder_callsFirst_iff` says
when none does. -/
namespace GlyphRules

open Step List Rule Lookup Book Act

variable {a p : Nat} {l : Lookup} {b : Book}

/-! ### Moving to the front -/

namespace Before
variable {α : Type} {l : List α} {a c x : α}

lemma cons_iff (ha : a ≠ x) : Before (x :: l) c a ↔ c = x ∧ a ∈ l ∨ Before l c a := by
  constructor
  · intro h
    cases h with
    | cons _ h => exact .inr h
    | cons_cons _ h => exact .inl ⟨rfl, singleton_sublist.1 h⟩
  · rintro (⟨rfl, hmem⟩ | h)
    · exact (singleton_sublist.2 hmem).cons_cons c
    · exact h.mono (sublist_cons_self x l)

lemma not_head (hx : x ∉ l) : ¬Before (x :: l) c x := by
  intro h
  cases h with
  | cons _ h | cons_cons _ h => exact hx (h.subset (by simp))

lemma erase_iff [DecidableEq α] (hc : c ≠ x) (ha : a ≠ x) : Before (l.erase x) c a ↔ Before l c a := by
  refine ⟨fun h => h.mono erase_sublist, fun h => ?_⟩
  have : [c, a].erase x = [c, a] := erase_of_not_mem (by simp [hc.symm, ha.symm])
  rw [Before, ← this]
  exact Sublist.erase x h

end Before

section UpTo
variable {α : Type} [DecidableEq α] {l t : List α} {a c x : α}

/-- What stands in a list before the first of a value. -/
def upTo (l : List α) (a : α) : List α := l.takeWhile (· ≠ a)

lemma upTo_cons_self (a : α) (l) : upTo (a :: l) a = [] := by simp [upTo]

lemma upTo_cons_ne (h : x ≠ a) (l) : upTo (x :: l) a = x :: upTo l a := by simp [upTo, h]

lemma upTo_append_of_not_mem (h : a ∉ l) (t) : upTo (l ++ t) a = l ++ upTo t a := by
  refine takeWhile_append_of_pos fun x hx => ?_
  simp only [decide_eq_true_eq]
  rintro rfl
  exact h hx

lemma upTo_append_of_mem (h : a ∈ l) (t) : upTo (l ++ t) a = upTo l a := by
  induction l with
  | nil => cases h
  | cons x l ih =>
    by_cases hx : x = a
    · subst hx
      rw [cons_append, upTo_cons_self, upTo_cons_self]
    · rw [cons_append, upTo_cons_ne hx, upTo_cons_ne hx, ih ((mem_cons.1 h).resolve_left (Ne.symm hx))]

lemma before_iff_mem_upTo (hnodup : l.Nodup) (ha : a ∈ l) : Before l c a ↔ c ∈ upTo l a := by
  induction l with
  | nil => cases ha
  | cons x l ih =>
    obtain ⟨hx, hnodup⟩ := nodup_cons.1 hnodup
    by_cases hxa : x = a
    · subst hxa
      simp [upTo_cons_self, Before.not_head hx]
    · have hmem : a ∈ l := (mem_cons.1 ha).resolve_left (Ne.symm hxa)
      rw [Before.cons_iff (Ne.symm hxa), ih hnodup hmem, upTo_cons_ne hxa, mem_cons, and_iff_left hmem]

def movedFront (l t : List α) : List α := l.foldl (fun t a => a :: t.erase a) t

lemma perm_movedFront (h : ∀ x ∈ l, x ∈ t) : (movedFront l t).Perm t := by
  induction l generalizing t with
  | nil => exact .refl t
  | cons a l ih =>
    have moved : (a :: t.erase a).Perm t := (perm_cons_erase (h a (by simp))).symm
    exact (ih fun x hx => moved.symm.subset (h x (by simp [hx]))).trans moved

lemma before_movedFront (hnodup : t.Nodup) (hl : ∀ x ∈ l, x ∈ t) (ha : a ∈ t) :
    Before (movedFront l t) c a ↔ c ∈ upTo (l.reverse ++ t) a := by
  induction l using List.reverseRecOn with
  | nil => exact before_iff_mem_upTo hnodup ha
  | append_singleton l x ih =>
    have hl : ∀ x ∈ l, x ∈ t := fun x hx => hl x (by simp [hx])
    have perm := perm_movedFront hl
    have moved : movedFront (l ++ [x]) t = x :: (movedFront l t).erase x := by simp [movedFront]
    rw [moved, reverse_concat, cons_append]
    by_cases hxa : x = a
    · subst hxa
      simp [upTo_cons_self, Before.not_head (perm.nodup_iff.2 hnodup).not_mem_erase]
    · have hmem : a ∈ (movedFront l t).erase x := (mem_erase_of_ne (Ne.symm hxa)).2 (perm.symm.subset ha)
      rw [Before.cons_iff (Ne.symm hxa), upTo_cons_ne hxa, mem_cons, and_iff_left hmem]
      by_cases hc : c = x
      · simp [hc]
      · rw [Before.erase_iff hc (Ne.symm hxa), ih hl]

end UpTo

/-! ### The arrangement -/

def arranged (ahead : Nat → List Nat) (places : List Nat) : List Nat :=
  places.foldr (fun p t => movedFront (ahead p) (p :: t)) []

section Arranged
variable {ahead : Nat → List Nat} {n : Nat}

lemma moveBefore_range (h : p ≤ a) (t) :
    moveBefore p (List.range p ++ t) a = List.range p ++ a :: t.erase a := by
  have hnot : a ∉ List.range p := by simpa using h
  rw [moveBefore, erase_append_right t hnot]
  simp

lemma foldl_moveBefore {l} (h : ∀ a ∈ l, p ≤ a) (t) :
    l.foldl (moveBefore p) (List.range p ++ t) = List.range p ++ movedFront l t := by
  induction l generalizing t with
  | nil => rfl
  | cons a l ih =>
    rw [foldl_cons, moveBefore_range (h a (by simp)), ih fun a ha => h a (by simp [ha])]
    rfl

/-- The moves from the last place to the first arrange the places. -/
lemma foldr_moveBefore (hahead : ∀ p, ∀ a ∈ ahead p, p < a) (p k) :
    (List.range' p k).foldr (fun p order => (ahead p).foldl (moveBefore p) order) (List.range (p + k)) =
      List.range p ++ arranged ahead (List.range' p k) := by
  induction k generalizing p with
  | zero => simp [arranged]
  | succ k ih =>
    have rest := ih (p + 1)
    rw [Nat.add_right_comm] at rest
    rw [List.range'_succ, foldr_cons, ← Nat.add_assoc, rest, range_succ, append_assoc,
      foldl_moveBefore fun a ha => (hahead p a ha).le]
    rfl

section
variable (hahead : ∀ p, ∀ a ∈ ahead p, p < a ∧ a < n) {k : Nat} (hn : p + k = n)
include hahead hn

lemma perm_arranged : (arranged ahead (List.range' p k)).Perm (List.range' p k) := by
  induction k generalizing p with
  | zero => exact .refl []
  | succ k ih =>
    have rest := ih (p := p + 1) (by omega)
    refine (perm_movedFront fun a ha => ?_).trans (rest.cons p)
    have := hahead p a ha
    exact mem_cons_of_mem _ (rest.symm.subset (mem_range'_1.2 (by omega)))

/-- The arrangement is that of first places in a row of blocks: what is called ahead, the last call
first, and then the place itself. -/
lemma before_arranged {a c} (ha : a ∈ List.range' p k) : Before (arranged ahead (List.range' p k)) c a ↔
      c ∈ upTo ((List.range' p k).flatMap fun p => (ahead p).reverse ++ [p]) a := by
  induction k generalizing p with
  | zero => cases ha
  | succ k ih =>
    have perm := perm_arranged hahead (p := p + 1) (k := k) (by omega)
    have inside (a) (h : a ∈ ahead p) : a ∈ p :: arranged ahead (List.range' (p + 1) k) := by
      have := hahead p a h
      exact mem_cons_of_mem _ (perm.symm.subset (mem_range'_1.2 (by omega)))
    have nodup : (p :: arranged ahead (List.range' (p + 1) k)).Nodup := by
      refine nodup_cons.2 ⟨fun h => ?_, perm.nodup_iff.2 nodup_range'⟩
      have := mem_range'_1.1 (perm.subset h)
      omega
    rw [List.range'_succ, mem_cons] at ha
    have hmem : a ∈ p :: arranged ahead (List.range' (p + 1) k) :=
      mem_cons.2 (ha.imp_right fun h => perm.symm.subset h)
    rw [List.range'_succ, flatMap_cons]
    refine (before_movedFront nodup inside hmem).trans ?_
    rw [← singleton_append, ← append_assoc]
    -- Only what the block of `p` holds is moved; the rest stays as the later places left it.
    by_cases hblock : a ∈ (ahead p).reverse ++ [p]
    · rw [upTo_append_of_mem hblock, upTo_append_of_mem hblock]
    · have hrest : a ∈ List.range' (p + 1) k := ha.resolve_left fun h => hblock (by simp [h])
      rw [upTo_append_of_not_mem hblock, upTo_append_of_not_mem hblock]
      refine mem_append.trans (.trans (or_congr_right ?_) mem_append.symm)
      rw [← ih (by omega) hrest, before_iff_mem_upTo (nodup_cons.1 nodup).2 (perm.symm.subset hrest)]

end

end Arranged

/-! ### The places of calls -/

namespace Book

def write (b : Book) (is : List RoutineId) : Book := is.foldl (fun b i => b.alterRoutine i Routine.written) b

section Write
variable (b : Book) (is : List RoutineId)

lemma write_append (is') : b.write (is ++ is') = (b.write is).write is' := by simp [write]

lemma rest_write : { b.write is with routines := b.routines } = b := by
  induction is generalizing b with
  | nil => rfl
  | cons i is ih =>
    exact congrArg (fun x => { x with routines := b.routines }) (ih (b.alterRoutine i Routine.written))

lemma order_write : (b.write is).order = b.order := congrArg (·.order) (b.rest_write is :)

lemma rule_write (id) : (b.write is).rule id = b.rule id := congrArg (·.rule id) (b.rest_write is :)

lemma size_write : (b.write is).routines.size = b.routines.size := by
  induction is generalizing b with
  | nil => rfl
  | cons i is ih => exact (ih _).trans (b.size_alterRoutine i _)

lemma uncounted_write (j) : ((b.write is).routine j).uncounted = (b.routine j).uncounted := by
  induction is generalizing b with
  | nil => rfl
  | cons i is ih =>
    have same (r : Routine) : r.written.uncounted = r.uncounted := rfl
    exact (ih _).trans (b.routine_alterRoutine_eq i same j)

lemma usecount_write {j : RoutineId} (hj : j < b.routines.size) : ((b.write is).routine j).usecount =
    if j ∈ is then alwaysWritten else (b.routine j).usecount := by
  induction is generalizing b with
  | nil => rfl
  | cons i is ih =>
    refine (ih (b.alterRoutine i Routine.written) (by rwa [size_alterRoutine])).trans ?_
    by_cases hi : j = i
    · subst hi
      rw [routine_alterRoutine_self hj, if_pos (mem_cons_self ..)]
      exact ite_self _
    · simp [routine_alterRoutine_ne b hi, hi]

lemma ruleIds_write (i) : (b.write is).ruleIds i = b.ruleIds i :=
  ruleIds_of_content (b.size_write is) (fun j => congrArg (·.content) (b.uncounted_write is j :)) i

lemma rulesOf_write (i) : (b.write is).rulesOf i = b.rulesOf i := by
  unfold rulesOf
  rw [b.ruleIds_write is i, funext (b.rule_write is)]

end Write

/-- A call of a routine in force. -/
def Placeable (b : Book) (l : Lookup) : Prop := ∃ n i, l = .ref ⟨n, some i⟩ ∧ i ∈ b.order

def placeOf (b : Book) (l : Lookup) : Nat := (l.routine?.map b.order.idxOf).getD 0

lemma placeable_write : (b.write is).Placeable l ↔ b.Placeable l := by
  unfold Placeable
  rw [order_write]

lemma placeOf_write (b : Book) (is) : (b.write is).placeOf = b.placeOf := by
  unfold placeOf
  rw [order_write]

lemma Placeable.lt (h : b.Placeable l) : b.placeOf l < b.order.length := by
  obtain ⟨n, i, rfl, hi⟩ := h
  exact idxOf_lt_length_of_mem hi

def Orderable (b : Book) : Prop :=
  ∀ i ∈ b.order, (b.rulesOf i).any Rule.isChain → ∀ r ∈ b.rulesOf i,
    ∃ calls, r.calls = some calls ∧ ∀ l ∈ calls.entries, b.Placeable l

def calledAt (b : Book) (p : Nat) : List Lookup :=
  match b.order[p]? with
  | none => []
  | some i => if (b.rulesOf i).any Rule.isChain then (b.rulesOf i).flatMap fun r => (r.calls.getD []).entries else []

def ahead (b : Book) (p : Nat) : List Nat := ((b.calledAt p).map b.placeOf).filter (· > p)

end Book

namespace Act

def Wrote (b b' : Book) : Prop := ∃ is, b' = b.write is

instance : Std.Refl Wrote := ⟨fun _ => ⟨[], rfl⟩⟩

instance : Trans Wrote Wrote Wrote := by
  refine ⟨?_⟩
  rintro b _ _ ⟨is, rfl⟩ ⟨is', rfl⟩
  exact ⟨is ++ is', (b.write_append is is').symm⟩

section Calls
variable {b' : Book}

lemma placeOfCall_on (h : b.Placeable l) : (placeOfCall l).on b = (.ok (b.placeOf l), b.write l.routine?.toList) := by
  obtain ⟨n, i, rfl, hi⟩ := h
  obtain ⟨k, hk⟩ := Option.isSome_iff_exists.1 (isSome_idxOf?.2 hi)
  have place : b.order.idxOf i = k := by rw [idxOf_eq_getD_idxOf?, hk]; rfl
  rw [placeOfCall, on_bind_ok (on_modify _ b), on_get_bind]
  have index : (b.alterRoutine i Routine.written).indexOf? i = some k := hk
  simp only [index]
  show (Except.ok k, _) = (Except.ok (b.order.idxOf i), _)
  rw [place]
  rfl

lemma placeable_of_ok (h : (placeOfCall l).on b = (.ok n, b')) : b.Placeable l := by
  match l, h with
  | .ref ⟨name, some i⟩, h =>
    refine ⟨name, i, rfl, ?_⟩
    rw [placeOfCall, on_bind_ok (on_modify _ b), on_get_bind] at h
    split at h
    · cases h
    · next k hk => exact isSome_idxOf?.1 (Option.isSome_iff_exists.2 ⟨k, hk⟩)

lemma keeps_placeOfCall (l) : Keeps Wrote (placeOfCall l) := by
  match l with
  | .bare _ | .ref ⟨_, none⟩ => exact .throw _
  | .ref ⟨_, some i⟩ =>
    refine .bind (.modify fun b => ⟨[i], rfl⟩) fun _ => .bind .get fun b => ?_
    split
    · exact .throw _
    · exact .pure _

lemma keeps_placesOfCalls (r) : Keeps Wrote (placesOfCalls r) := by
  unfold placesOfCalls
  split
  · exact .throw _
  · exact .mapM _ fun l _ => keeps_placeOfCall l

lemma keeps_orderAt (order) (p) : Keeps Wrote (orderAt order p) := by
  refine .bind .get fun b => ?_
  split
  · exact .pure _
  · dsimp only
    split
    · exact .bind (.mapM _ fun r _ => keeps_placesOfCalls r) fun _ => .pure _
    · exact .pure _

lemma mapM_placeOfCall_on {ls : List Lookup} (h : ∀ l ∈ ls, b.Placeable l) :
    (ls.mapM placeOfCall).on b = (.ok (ls.map b.placeOf), b.write (ls.filterMap routine?)) := by
  induction ls generalizing b with
  | nil => rfl
  | cons l ls ih =>
    have placed := h l (.head _)
    have rest := ih (b := b.write l.routine?.toList) fun l hl => placeable_write.2 (h l (.tail _ hl))
    rw [mapM_cons, on_bind_ok (placeOfCall_on placed), on_bind_ok rest, b.placeOf_write, ← b.write_append]
    obtain ⟨n, i, rfl, -⟩ := placed
    rfl

lemma mapM_placesOfCalls_on {rules : List Rule}
    (h : ∀ r ∈ rules, ∃ calls, r.calls = some calls ∧ ∀ l ∈ calls.entries, b.Placeable l) :
    (rules.mapM placesOfCalls).on b = (.ok (rules.map fun r => (r.calls.getD []).entries.map b.placeOf),
      b.write (rules.flatMap fun r => (r.calls.getD []).entries.filterMap routine?)) := by
  induction rules generalizing b with
  | nil => rfl
  | cons r rules ih =>
    obtain ⟨calls, hcalls, placed⟩ := h r (.head _)
    have first : (placesOfCalls r).on b =
        (.ok (calls.entries.map b.placeOf), b.write (calls.entries.filterMap routine?)) := by
      rw [placesOfCalls, hcalls]
      exact mapM_placeOfCall_on placed
    have rest := ih (b := b.write (calls.entries.filterMap routine?)) fun r hr => by
      obtain ⟨calls, hcalls, placed⟩ := h r (.tail _ hr)
      exact ⟨calls, hcalls, fun l hl => placeable_write.2 (placed l hl)⟩
    rw [mapM_cons, on_bind_ok first, on_bind_ok rest, b.placeOf_write, ← b.write_append]
    simp [hcalls]

lemma orderAt_on (h : b.Orderable) (is) (order) (p) :
    (orderAt order p).on (b.write is) = (.ok ((b.ahead p).foldl (moveBefore p) order),
      b.write (is ++ (b.calledAt p).filterMap routine?)) := by
  unfold orderAt ahead calledAt
  rw [on_get_bind, b.order_write]
  cases hp : b.order[p]? with
  | none => simp
  | some i =>
    simp only [b.rulesOf_write]
    split
    · next hchain =>
      have calls := mapM_placesOfCalls_on (b := b.write is) fun r hr => by
        obtain ⟨calls, hcalls, placed⟩ := h i (mem_of_getElem? hp) hchain r hr
        exact ⟨calls, hcalls, fun l hl => placeable_write.2 (placed l hl)⟩
      rw [on_bind_ok calls, b.placeOf_write, b.write_append]
      simp [flatMap_def, map_flatten, filterMap_flatten, Function.comp_def]
    · simp

lemma foldlM_orderAt_on (h : b.Orderable) (is) (order places : List Nat) :
    (places.foldlM orderAt order).on (b.write is) =
      (.ok (places.foldl (fun order p => (b.ahead p).foldl (moveBefore p) order) order),
        b.write (is ++ places.flatMap fun p => (b.calledAt p).filterMap routine?)) := by
  induction places generalizing is order with
  | nil => simp
  | cons p places ih =>
    rw [foldlM_cons, on_bind_ok (orderAt_on h is order p), ih, append_assoc]
    rfl

end Calls
end Act

lemma Book.Orderable.mem_ahead (h : b.Orderable) (ha : a ∈ b.ahead p) : p < a ∧ a < b.order.length := by
  obtain ⟨hmem, hlt⟩ := mem_filter.1 ha
  refine ⟨by simpa using hlt, ?_⟩
  obtain ⟨l, hl, rfl⟩ := mem_map.1 hmem
  unfold calledAt at hl
  split at hl
  · cases hl
  · next i hi =>
    split at hl
    · next hchain =>
      obtain ⟨r, hr, hl⟩ := mem_flatMap.1 hl
      obtain ⟨calls, hcalls, placed⟩ := h i (mem_of_getElem? hi) hchain r hr
      rw [hcalls] at hl
      exact (placed l hl).lt
    · cases hl

namespace Act
variable {b₀ : Book}

/-- The places are arranged, and what is called from routines with chains is always written in full. -/
lemma callOrder_on (hresolve : resolveAll.on b₀ = (.ok (), b)) (h : b.Orderable) :
    callOrder.on b₀ = (.ok (arranged b.ahead (List.range b.order.length)),
      b.write ((List.range b.order.length).reverse.flatMap fun p => (b.calledAt p).filterMap routine?)) := by
  have arrange := foldr_moveBefore (fun p a ha => (h.mem_ahead ha).1) 0 b.order.length
  rw [Nat.zero_add, ← range_eq_range'] at arrange
  rw [callOrder, on_bind_ok hresolve, on_get_bind]
  refine (foldlM_orderAt_on h [] _ _).trans ?_
  rw [foldl_reverse, arrange]
  rfl

/-- If an order is found, every rule of a routine that has chains calls routines in force only. -/
lemma orderable_of_callOrder {places} (hresolve : resolveAll.on b₀ = (.ok (), b))
    (hrun : callOrder.on b₀ = (.ok places, b')) : b.Orderable := by
  intro i hi hchain r hr
  rw [callOrder, on_bind_ok hresolve, on_get_bind] at hrun
  obtain ⟨p, hp⟩ := mem_iff_getElem?.1 hi
  have hlt : p ∈ (List.range b.order.length).reverse := by
    simpa using (List.getElem?_eq_some_iff.1 hp).1
  obtain ⟨order, _, order', t, ⟨is, rfl⟩, hstep⟩ := Keeps.on_foldlM_mem keeps_orderAt hrun hlt
  rw [orderAt, on_get_bind, b.order_write, hp] at hstep
  simp only [b.rulesOf_write, hchain, if_true] at hstep
  obtain ⟨places, u, hrules, -⟩ := on_bind_eq_ok hstep
  obtain ⟨ps, -, _, t, ⟨is', rfl⟩, hcalls, -⟩ := forall₂_mem_left (Keeps.on_mapM keeps_placesOfCalls hrules) hr
  unfold placesOfCalls at hcalls
  split at hcalls
  · cases hcalls
  · next calls hsome =>
    refine ⟨calls, hsome, fun l hl => ?_⟩
    obtain ⟨n, -, _, t, ⟨is'', rfl⟩, hplace, -⟩ := forall₂_mem_left (Keeps.on_mapM keeps_placeOfCall hcalls) hl
    exact placeable_write.1 (placeable_write.1 (placeable_write.1 (placeable_of_ok hplace)))

end Act

/-! ### Called before calling -/

namespace Book

/-- A place from which another is called ahead, the first such place. -/
structure FetchedBy (b : Book) (a p : Nat) : Prop where
  called : a ∈ b.ahead p
  first : ∀ q < p, a ∉ b.ahead q

/-- What comes to stand before a place that is fetched by `p`: what stands before `p` or is called ahead from
there, and what `p` itself calls ahead later on. -/
def ReadyFor (b : Book) (p a c : Nat) : Prop :=
  c < p ∨ (∃ q < p, c ∈ b.ahead q) ∨ c ∈ upTo (b.ahead p).reverse a

/-- The places in the order of their blocks. -/
def blocks (b : Book) (ps : List Nat) : List Nat := ps.flatMap fun p => (b.ahead p).reverse ++ [p]

lemma mem_blocks : a ∈ b.blocks ps ↔ a ∈ ps ∨ ∃ q ∈ ps, a ∈ b.ahead q := by
  unfold blocks
  simp only [mem_flatMap, mem_append, mem_reverse, mem_singleton]
  constructor
  · rintro ⟨q, hq, ha | rfl⟩
    · exact .inr ⟨q, hq, ha⟩
    · exact .inl hq
  · rintro (ha | ⟨q, hq, ha⟩)
    · exact ⟨a, ha, .inr rfl⟩
    · exact ⟨q, hq, .inl ha⟩

lemma blocks_split (b : Book) {p n} (hp : p < n) : ∃ rest,
    b.blocks (List.range n) = b.blocks (List.range p) ++ ((b.ahead p).reverse ++ p :: rest) := by
  obtain ⟨k, rfl⟩ := Nat.exists_eq_add_of_lt hp
  have split : List.range (p + k + 1) = List.range p ++ p :: List.range' (p + 1) k := by
    rw [range_eq_range', range_eq_range', ← List.range'_succ, Nat.add_assoc]
    simpa using (List.range'_append_1 (s := 0) (m := p) (n := k + 1)).symm
  rw [split]
  simp [blocks]

lemma not_mem_blocks (ha : ∀ q < p, a ∉ b.ahead q) (hp : p ≤ a) : a ∉ b.blocks (List.range p) := by
  intro hmem
  rcases mem_blocks.1 hmem with hlt | ⟨q, hq, hq'⟩
  · exact absurd (mem_range.1 hlt) (Nat.not_lt.2 hp)
  · exact ha q (mem_range.1 hq) hq'

section Arrangement
variable (h : b.Orderable) {c : Nat}
include h

lemma Orderable.before_iff (ha : a < b.order.length) :
    Before (arranged b.ahead (List.range b.order.length)) c a ↔ c ∈ upTo (b.blocks (List.range b.order.length)) a := by
  rw [range_eq_range']
  exact before_arranged (fun p a ha => h.mem_ahead ha) (Nat.zero_add _) (mem_range'_1.2 (by omega))

lemma Orderable.before_fetched (hp : b.FetchedBy a p) :
    Before (arranged b.ahead (List.range b.order.length)) c a ↔ b.ReadyFor p a c := by
  obtain ⟨hlt, hlen⟩ := h.mem_ahead hp.called
  obtain ⟨rest, hblocks⟩ := b.blocks_split (hlt.trans hlen)
  rw [h.before_iff hlen, hblocks, upTo_append_of_not_mem (not_mem_blocks hp.first hlt.le),
    upTo_append_of_mem (mem_reverse.2 hp.called), mem_append, mem_blocks, or_assoc]
  simp only [mem_range]
  rfl

lemma Orderable.before_unfetched (ha : a < b.order.length) (hnot : ∀ q < a, a ∉ b.ahead q) (hc : c < a ∨ c ∈ b.ahead a) :
    Before (arranged b.ahead (List.range b.order.length)) c a := by
  have self : a ∉ (b.ahead a).reverse := fun hmem =>
    Nat.lt_irrefl a (h.mem_ahead (mem_reverse.1 hmem)).1
  obtain ⟨rest, hblocks⟩ := b.blocks_split ha
  rw [h.before_iff ha, hblocks, upTo_append_of_not_mem (not_mem_blocks hnot le_rfl),
    upTo_append_of_not_mem self, mem_append, mem_append, mem_blocks]
  exact hc.imp (fun hlt => .inl (mem_range.2 hlt)) fun hmem => .inl (mem_reverse.2 hmem)

end Arrangement

/-- What a routine in force calls is in force, and among the calls of its place. -/
lemma mem_calledAt (hresolved : ∀ id ∈ b.allRules, b.ChainResolved id) {i k} (hi : b.order[p]? = some i)
    (hk : k ∈ b.callees i) : k ∈ b.order ∧ ∃ l ∈ b.calledAt p, l.routine? = some k := by
  obtain ⟨r, hr, hdep⟩ := mem_flatMap.1 (mem_callees.1 hk)
  obtain ⟨c, hc⟩ := chaining_of_mem hdep
  rw [dependencies_eq, chained_chaining hc] at hdep
  obtain ⟨l, hl, hroutine⟩ := mem_map.1 hdep
  obtain ⟨ls, hls, hmem⟩ := Calls.mem_entries.1 hl
  obtain ⟨id, hid, rfl⟩ := mem_map.1 hr
  have hall : id ∈ b.allRules := mem_flatMap.2 ⟨i, mem_of_getElem? hi, hid⟩
  have slot : PositionResolved b (some ls) := hresolved id hall _ (by rwa [chained_chaining hc])
  obtain ⟨n, k', rfl, hk', -⟩ := slot.2 l hmem
  obtain rfl := Option.some.inj hroutine
  have hchain : (b.rulesOf i).any isChain = true := by
    refine any_eq_true.2 ⟨_, hr, ?_⟩
    simp [isChain, hc]
  refine ⟨hk', .ref ⟨some n, some k'⟩, ?_, rfl⟩
  rw [calledAt, hi]
  simp only [hchain, if_true]
  refine mem_flatMap.2 ⟨_, hr, ?_⟩
  rwa [calls_chaining hc]

lemma Acyclic.place_called (h : b.Acyclic) (hresolved : ∀ id ∈ b.allRules, b.ChainResolved id) {i k}
    (hi : b.order[p]? = some i) (hk : k ∈ b.callees i) : b.order.idxOf k < p ∨ b.order.idxOf k ∈ b.ahead p := by
  obtain ⟨hmem, l, hl, hroutine⟩ := mem_calledAt hresolved hi hk
  have hcalled : b.order.idxOf k ∈ (b.calledAt p).map b.placeOf :=
    mem_map.2 ⟨l, hl, by rw [placeOf, hroutine]; rfl⟩
  rcases Nat.lt_trichotomy (b.order.idxOf k) p with hlt | rfl | hgt
  · exact .inl hlt
  · have hself : b.order[b.order.idxOf k]? = some k := by
      rw [List.getElem?_eq_getElem (idxOf_lt_length_of_mem hmem), getElem_idxOf]
    obtain rfl := Option.some.inj (hi.symm.trans hself)
    exact absurd (.single hk) (h i)
  · exact .inr (mem_filter.2 ⟨hcalled, by simpa using hgt⟩)

def ChainsPlain (b : Book) : Prop :=
  ∀ i ∈ b.order, (b.rulesOf i).any Rule.isChain → ∀ r ∈ b.rulesOf i, r.body matches .chaining _ | .substitution _

/-- Substitutions beside chains call routines in force only. -/
def SubstitutionsPlaced (b : Book) : Prop :=
  ∀ i ∈ b.order, (b.rulesOf i).any Rule.isChain → ∀ r ∈ b.rulesOf i, ∀ s, r.body = .substitution s →
    ∀ l ∈ s.calls.entries, b.Placeable l

lemma orderable_iff (hresolved : ∀ id ∈ b.allRules, b.ChainResolved id) (hplain : b.ChainsPlain) :
    b.Orderable ↔ b.SubstitutionsPlaced := by
  constructor
  · intro h i hi hchain r hr s hs l hl
    obtain ⟨calls, hcalls, placed⟩ := h i hi hchain r hr
    obtain rfl : s.calls = calls := by simpa [Rule.calls, hs] using hcalls
    exact placed l hl
  · intro h i hi hchain r hr
    have kind := hplain i hi hchain r hr
    split at kind
    · next c hc =>
      refine ⟨c.calls, calls_chaining hc, fun l hl => ?_⟩
      obtain ⟨ls, hls, hmem⟩ := Calls.mem_entries.1 hl
      obtain ⟨id, hid, rfl⟩ := mem_map.1 hr
      have slot : PositionResolved b (some ls) :=
        hresolved id (mem_flatMap.2 ⟨i, hi, hid⟩) _ (by rwa [chained_chaining hc])
      obtain ⟨n, k, rfl, hk, -⟩ := slot.2 l hmem
      exact ⟨_, k, rfl, hk⟩
    · next s hs => exact ⟨s.calls, by simp [calls, hs], h i hi hchain r hr s hs⟩
    · cases kind

/-- Every place stands behind the places of all that the routine there calls. -/
def PlacesFirst (b : Book) (places : List Nat) : Prop :=
  ∀ p i, b.order[p]? = some i → ∀ k ∈ b.callees i, Before places (b.order.idxOf k) p

instance (b : Book) (places : List Nat) : Decidable (b.PlacesFirst places) :=
  decidable_of_iff (∀ x ∈ b.order.zipIdx, ∀ k ∈ b.callees x.1, Before places (b.order.idxOf k) x.2) (by
    constructor
    · exact fun h p i hi => h (i, p) (mem_zipIdx_iff_getElem?.2 hi)
    · exact fun h x hx => h x.2 x.1 (mem_zipIdx_iff_getElem?.1 hx))

end Book

/-- **The order in which routines are written has calls first exactly when** all substitutions beside chains
call routines in force, and every routine that is fetched ahead calls only what comes to stand before it. -/
theorem callOrder_callsFirst_iff {b₀ b : Book} (hcoherent : b₀.Coherent) (hbare : b₀.BareWithin)
    (hresolve : resolveAll.on b₀ = (.ok (), b)) (hplain : b.ChainsPlain) (hacyclic : b.Acyclic) :
    (∃ places b', callOrder.on b₀ = (.ok places, b') ∧ places.Perm (List.range b.order.length) ∧
      b.PlacesFirst places) ↔
    b.SubstitutionsPlaced ∧ ∀ a p i, b.FetchedBy a p → b.order[a]? = some i → ∀ k ∈ b.callees i,
      b.ReadyFor p a (b.order.idxOf k) := by
  obtain ⟨-, -, resolved⟩ := resolveAll_on hcoherent hbare hresolve
  rw [← Book.orderable_iff resolved hplain]
  constructor
  · rintro ⟨places, b', hrun, -, hfirst⟩
    have orderable := orderable_of_callOrder hresolve hrun
    cases (callOrder_on hresolve orderable).symm.trans hrun
    exact ⟨orderable, fun a p i hp hi k hk => (orderable.before_fetched hp).1 (hfirst a i hi k hk)⟩
  · rintro ⟨orderable, hready⟩
    refine ⟨_, _, callOrder_on hresolve orderable, ?_, fun a i hi k hk => ?_⟩
    · rw [List.range_eq_range']
      exact perm_arranged (fun p a ha => orderable.mem_ahead ha) (Nat.zero_add _)
    · by_cases hfetched : ∃ p, a ∈ b.ahead p
      · have fetched : b.FetchedBy a (Nat.find hfetched) :=
          ⟨Nat.find_spec hfetched, fun q hq => Nat.find_min hfetched hq⟩
        exact (orderable.before_fetched fetched).2 (hready a _ i fetched hi k hk)
      · exact orderable.before_unfetched (List.getElem?_eq_some_iff.1 hi).1
          (fun q _ hq => hfetched ⟨q, hq⟩) (hacyclic.place_called resolved hi hk)

section Sample

theorem callOrder_callsFirst_ready : readyBook.ChainsPlain ∧ readyBook.Acyclic ∧
    (∃ b', callOrder.on readyBook = (.ok [0, 2, 1], b')) ∧ readyBook.PlacesFirst [0, 2, 1] ∧
      ∀ a p i, readyBook.FetchedBy a p → readyBook.order[a]? = some i → ∀ k ∈ readyBook.callees i,
        readyBook.ReadyFor p a (readyBook.order.idxOf k) := by
  have coherent : readyBook.Coherent := Book.coherent_of_ungrouped (by decide)
  have within : readyBook.CallsWithin := Book.callsWithin_of_rules (by decide)
  have plain : readyBook.ChainsPlain := by unfold Book.ChainsPlain; decide
  have first : readyBook.PlacesFirst [0, 2, 1] := by decide
  have hiff := callOrder_callsFirst_iff coherent within.bareWithin rfl plain deepBook_acyclic
  exact ⟨plain, deepBook_acyclic, ⟨_, rfl⟩, first, (hiff.1 ⟨_, _, rfl, by decide, first⟩).2⟩

/-- **Two calls deep the order can be wrong**: the middle routine is moved in front of the outer one, and
so in front of what it calls. -/
theorem callOrder_two_deep : deepBook.ChainsPlain ∧ deepBook.SubstitutionsPlaced ∧ deepBook.Acyclic ∧
    resolveAll.on deepBook = (.ok (), deepBook) ∧
    (∃ b', callOrder.on deepBook = (.ok [1, 0, 2], b')) ∧ ¬deepBook.PlacesFirst [1, 0, 2] := by
  have chains : ∀ i ∈ deepBook.order, (deepBook.rulesOf i).any Rule.isChain →
      ∀ r ∈ deepBook.rulesOf i, r.isChain = true := by decide
  refine ⟨by unfold Book.ChainsPlain; decide, ?_, deepBook_acyclic, rfl, ⟨_, rfl⟩, by decide⟩
  intro i hi hchain r hr s hs
  have := chains i hi hchain r hr
  simp [Rule.isChain, hs] at this

end Sample

end GlyphRules
