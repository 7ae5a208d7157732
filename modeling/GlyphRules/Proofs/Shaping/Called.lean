import GlyphRules.Proofs.Book.Stage
import GlyphRules.Proofs.Shaping.Sweep

/-! Rules that a chain calls.

A called rule is tried at an item and not at a place. An item that the rule does not see is an error, and so is one slot
more than there are places. After the calls the buffer is seen as before, but for the set of attached marks
(`chain_bounds`). -/
namespace GlyphRules.Shaping

open Step List Book Shape
open Feature (ruleText callName ofChaining)

variable {s t : Session} {index n : Nat} {filter : Option (List String)}

lemma SameRules.lead_eq (h : SameRules s t) (i) : t.book.lead i = s.book.lead i := by
  unfold Book.lead
  simp only [h.routine_eq, h.rule_eq]

lemma SameRules.callsStage_eq (h : SameRules s t) (c) : t.book.callsStage c = s.book.callsStage c := by
  have stages : t.book.routineStage = s.book.routineStage := by
    funext i
    unfold routineStage
    rw [h.routines, routineStageWithin_congr h.lead_eq]
  rw [Book.callsStage_eq, Book.callsStage_eq, stages]

lemma SameRules.ruleText_eq (h : SameRules s t) (r) : ruleText t.book r = ruleText s.book r := by
  have names : callName t.book = callName s.book := by
    funext l
    cases l with
    | bare i => simp only [callName, h.routine_eq]
    | ref => rfl
  unfold ruleText Feature.ofRule ofChaining
  simp only [h.callsStage_eq, names]

lemma placeOf_go (index) {places} {m} (h : places.length ≤ m) (i) :
    placeOf.go index places m i = if index ∈ places then .ok (i + places.idxOf index : Nat)
      else if places.length < m then .error .outOfRange else .ok (-1) := by
  induction places generalizing m i with
  | nil =>
    cases m with
    | zero | succ m => simp [placeOf.go]
  | cons p places ih =>
    obtain ⟨m, rfl⟩ := Nat.exists_eq_add_one_of_ne_zero (Nat.ne_zero_of_lt (Nat.lt_of_lt_of_le (Nat.succ_pos _) h))
    rw [placeOf.go]
    by_cases hp : p = index
    · simp [hp]
    · rw [if_neg (by simpa using hp), ih (by simpa using h)]
      simp [Ne.symm hp, idxOf_cons_ne _ hp, Nat.add_comm, Nat.add_left_comm]

lemma Buffer.Whole.placeOf (h : b.Whole) (hn : n < b.items.length) :
    Shape.placeOf b n = .ok (n : Int) := by
  obtain ⟨_, first⟩ := List.getElem?_eq_some_iff.1 (getElem?_idxOf (mem_range.2 hn))
  rw [getElem_range] at first
  rw [Shape.placeOf, h, placeOf_go n (by simp), if_pos (mem_range.2 hn), first, Nat.zero_add]

namespace Shape

/-! ### Calls that go too far -/

lemma mapM_indexOf {p n : Nat} (h : p + n ≤ s.buffer.view.size) :
    (List.range n).mapM (fun (i : Nat) => s.buffer.indexOf (p + i)) =
      .ok ((List.range n).map fun i => s.buffer.view.places.getD (p + i) 0) := by
  refine mapM_ok fun i hi => itemAt_eq_ok.2 ?_
  have := mem_range.1 hi
  rw [getD_eq_getElem?_getD, getElem?_eq_getElem (by rw [View.length_places]; omega)]
  rfl

lemma setMask_eq_ok {attach} (h : (setMask flags filter attach).on s = (.ok (), t)) :
    t.buffer.items = s.buffer.items ∧ t.buffer.flags = (if flags.counts then flags else .bits 0) ∧
      t.buffer.filter = .ofOption filter ∧ t.buffer.attach = .ofOption attach ∧
      t.buffer.view.places.Sublist (List.range s.buffer.items.length) := by
  have settled (b : Buffer) : b.settleFlags = { b with flags := if b.flags.counts then b.flags else .bits 0 } := by
    unfold Buffer.settleFlags
    split <;> rfl
  unfold setMask remask at h
  simp only [on_bind_ok (on_onBuffer ..), settled] at h
  obtain ⟨view, u, hview, h⟩ := on_bind_eq_ok h
  obtain ⟨seen, rfl⟩ := Prod.mk.inj ((on_ask ..).symm.trans hview)
  have hsub := Buffer.visible_sublist seen
  cases h
  exact ⟨rfl, rfl, rfl, rfl, hsub⟩

section Calls
variable (apply : Rule → Int → Shape (Option Int)) (classes : Classes)

/-- Whether the first rule of a routine does not see an item. -/
def Hides (s : Session) (i : RoutineId) (index : Nat) : Prop :=
  ∃ r rules t, s.book.rulesOf i = r :: rules ∧
    (setMask r.flags (s.book.routine i).markFilteringSet none).on s = (.ok (), t) ∧ index ∉ t.buffer.view.places

lemma callAll_hides (h : Hides s i index) (hindex : index < s.buffer.items.length) {l}
    (hl : l.routine = some i) (calls) :
    ∃ t, (callAll apply classes index (.ref l :: calls)).on s = (.error .outOfRange, t) := by
  obtain ⟨r, rules, t, hrules, hmask, hidden⟩ := h
  obtain ⟨hitems, -, -, -, hview⟩ := setMask_eq_ok hmask
  rw [← hitems] at hview hindex
  have fewer : t.buffer.view.places.length < t.buffer.items.length := by
    refine Nat.lt_of_le_of_ne (by simpa using hview.length_le) fun h => hidden ?_
    rw [hview.eq_of_length (by simpa using h)]
    exact mem_range.2 hindex
  have hplace : placeOf t.buffer index = .error .outOfRange := by
    rw [placeOf, placeOf_go index (Nat.le_of_lt fewer), if_neg hidden, if_pos fewer]
  obtain ⟨name, routine⟩ := l
  cases hl
  refine ⟨t, ?_⟩
  rw [callAll, on_get_bind]
  refine on_bind_error ?_ _
  rw [hrules, tryRules, on_bind_ok hmask]
  exact on_bind_error ((on_ask ..).trans (congrArg (·, t) hplace)) _

/-! ### Calls that stay in range -/

variable {Inv : Session → Prop}

/-- An outcome that is no index error, and whose result has a property together with the session it leaves. -/
def Leaves (P : α → Session → Prop) (o : Except Fault α × Session) : Prop := Safe (P · o.2) o.1

lemma Leaves.bind {P : α → Session → Prop} {Q : β → Session → Prop} {x : Shape α} {f : α → Shape β}
    (h : Leaves P (x.on s)) (hf : ∀ a t, x.on s = (.ok a, t) → P a t → Leaves Q ((f a).on t)) :
    Leaves Q ((x >>= f).on s) := by
  rw [on_bind]
  rcases hx : x.on s with ⟨e | a, t⟩
  all_goals rw [hx] at h
  · exact h
  · exact hf a t hx h

lemma Leaves.forM {f : α → Shape PUnit} {l : List α} (hf : ∀ a ∈ l, ∀ s, Inv s → Leaves (fun _ => Inv) ((f a).on s))
    (hs : Inv s) : Leaves (fun _ => Inv) ((l.forM f).on s) := by
  induction l generalizing s with
  | nil => exact hs
  | cons a l ih =>
    obtain ⟨ha, hl⟩ := forall_mem_cons.1 hf
    exact (ha s hs).bind fun _ t _ ht => ih hl ht

variable (Inv) in
/-- A rule that sees an item in every session of a kind and keeps to the kind, without index errors of its own. -/
structure Fair (filter : Option (List String)) (index : Nat) (r : Rule) : Prop where
  sees : ∀ {s t}, Inv s → (setMask r.flags filter none).on s = (.ok (), t) → Inv t ∧ index ∈ t.buffer.view.places
  tests : ∀ {s}, Inv s → ∀ p, Leaves (fun _ => Inv) ((wouldApply classes r p).on s)
  acts : ∀ {s}, Inv s → ∀ p, Leaves (fun _ => Inv) ((apply r p).on s)

lemma setMask_safe (flags filter attach) (s : Session) :
    Leaves (fun _ _ => True) ((setMask flags filter attach).on s) := by
  have seen (u : Session) : Leaves (fun _ _ => True) ((ask Buffer.visible).on u) := by
    rw [on_ask]
    exact (Buffer.visible_safe _).imp fun _ _ => trivial
  unfold setMask remask
  rw [on_bind_ok (on_onBuffer ..), on_bind_ok (on_onBuffer ..)]
  exact (seen _).bind fun _ _ _ _ => trivial

lemma tryRules_safe {rules} (h : ∀ r ∈ rules, Fair apply classes Inv filter index r) (hs : Inv s) :
    Leaves (fun _ => Inv) ((tryRules apply classes filter index rules).on s) := by
  induction rules generalizing s with
  | nil => exact hs
  | cons r rules ih =>
    obtain ⟨hr, hrules⟩ := forall_mem_cons.1 h
    refine (setMask_safe ..).bind fun _ t ht _ => ?_
    obtain ⟨hinv, hsees⟩ := hr.sees hs ht
    have hplace : ∃ p, placeOf t.buffer index = .ok p := by
      obtain ⟨hitems, -, -, -, hview⟩ := setMask_eq_ok ht
      rw [placeOf, placeOf_go index (by simpa [hitems] using hview.length_le), if_pos hsees]
      exact ⟨_, rfl⟩
    obtain ⟨p, hp⟩ := hplace
    rw [on_bind_ok (on_ask_ok hp)]
    refine (hr.tests hinv p).bind fun fits u _ hu => ?_
    cases fits with
    | false => exact ih hrules hu
    | true =>
      refine (hr.acts hu p).bind fun moved v _ hv => ?_
      split
      · exact ih hrules hv
      · exact ih hrules hv
      · exact hv

variable (Inv) in
/-- Every rule that some calls lead to is fair to an item. -/
def FairCalls (index : Nat) (calls : List Lookup) : Prop :=
  ∀ l ∈ calls, ∀ i, l.routine? = some i → ∀ s, Inv s → ∀ r ∈ s.book.rulesOf i,
    Fair apply classes Inv (s.book.routine i).markFilteringSet index r

lemma callAll_safe {calls} (h : FairCalls apply classes Inv index calls) (hs : Inv s) :
    Leaves (fun _ => Inv) ((callAll apply classes index calls).on s) := by
  induction calls generalizing s with
  | nil => exact hs
  | cons l calls ih =>
    obtain ⟨hl, hcalls⟩ := forall_mem_cons.1 h
    unfold callAll
    split
    · exact hs
    · exact Fault.noConfusion
    · exact Fault.noConfusion
    · next i rest heq =>
      cases heq
      rw [on_get_bind]
      exact (tryRules_safe apply classes (hl i rfl s hs) hs).bind fun _ t _ ht => ih hcalls ht

lemma slots_safe {c : Chaining} {p} (hroom : p + c.calls.length ≤ s.buffer.view.size) (hs : Inv s)
    (hcalls : ∀ k slot index, c.calls[k]? = some slot → s.buffer.view.places[p + k]? = some index →
      FairCalls apply classes Inv index (slot.getD [])) :
    Leaves (fun _ => Inv) (((c.calls.zip ((List.range c.calls.length).map fun i =>
      s.buffer.view.places.getD (p + i) 0)).forM fun x => callAll apply classes x.2 (x.1.getD [])).on s) := by
  refine Leaves.forM (fun x hx t ht => callAll_safe apply classes ?_ ht) hs
  obtain ⟨k, hk⟩ := mem_iff_getElem?.1 hx
  obtain ⟨hslot, hindex⟩ := getElem?_zip_eq_some.1 hk
  refine hcalls k _ _ hslot ?_
  have := (List.getElem?_eq_some_iff.1 hslot).1
  have := s.buffer.view.length_places
  rw [getElem?_map, getElem?_range (by omega), Option.map_some, getD_eq_getElem?_getD,
    getElem?_eq_getElem (by omega)] at hindex
  rw [getElem?_eq_getElem (by omega)]
  exact hindex

/-- **A chain with far more slots than there are places does nothing, and one slot too many is an error, as is a called
rule that does not see its item. With room for the slots and rules that all see their items there is no such error. After
a chain the buffer has its flags and filter as before, but no attached marks.** -/
theorem chain_bounds (c : Chaining) (p : Nat) (s : Session) :
    (s.buffer.view.size + 1 < p + c.calls.length → (chain apply classes c p).on s = (.ok none, s)) ∧
    (c.calls ≠ [] → p + c.calls.length = s.buffer.view.size + 1 →
      (chain apply classes c p).on s = (.error .outOfRange, s)) ∧
    (p + c.calls.length ≤ s.buffer.view.size →
      (∀ l calls slots i index, c.calls = some (.ref l :: calls) :: slots → l.routine = some i →
        s.buffer.view.places[p]? = some index → index < s.buffer.items.length → Hides s i index →
        ∃ t, (chain apply classes c p).on s = (.error .outOfRange, t)) ∧
      (∀ Inv : Session → Prop, Inv s → (∀ k slot index, c.calls[k]? = some slot →
          s.buffer.view.places[p + k]? = some index → FairCalls apply classes Inv index (slot.getD [])) →
        ∀ t, (chain apply classes c p).on s ≠ (.error .outOfRange, t)) ∧
      ∀ m t, (chain apply classes c p).on s = (.ok m, t) →
        t.buffer.flags = (if s.buffer.flags.counts then s.buffer.flags else .bits 0) ∧
        t.buffer.filter = .ofOption (filterOf s.buffer.filter) ∧ t.buffer.attach = .nothing) := by
  refine ⟨fun hmany => ?_, fun hsome hone => ?_, fun hroom => ?_⟩
  · rw [chain, on_bind_ok (on_buffer s), if_pos (by omega)]
    rfl
  · obtain ⟨n, hn⟩ := Nat.exists_eq_add_one_of_ne_zero (mt length_eq_zero_iff.1 hsome)
    have last : s.buffer.indexOf (p + n) = .error .outOfRange := by
      unfold Buffer.indexOf itemAt placeIn?
      rw [if_pos (by omega), if_neg (by rw [View.length_places]; omega)]
      rfl
    rw [chain, on_bind_ok (on_buffer s), if_neg (by omega), hn, range_succ, mapM_append, mapM_indexOf (by omega)]
    refine on_bind_error ?_ _
    simp [last]
  · rw [chain, on_bind_ok (on_buffer s), if_neg (by omega), mapM_indexOf hroom, on_bind_ok (on_ofExcept _ s)]
    refine ⟨?_, fun Inv hs hcalls t h => ?_, fun m t h => ?_⟩
    · intro l calls slots i index hcalls hl hplace hindex hides
      obtain ⟨t, ht⟩ := callAll_hides apply classes hides hindex hl calls
      rw [hcalls, length_cons, range_succ_eq_map, map_cons, getD_eq_getElem?_getD, Nat.add_zero, hplace]
      exact ⟨t, on_bind_error (on_bind_error ht _) _⟩
    · suffices safe : Leaves (fun (_ : Option Int) _ => True) (.error .outOfRange, t) from safe rfl
      rw [← h]
      refine (slots_safe apply classes hroom hs hcalls).bind fun _ u _ _ => (setMask_safe ..).bind fun _ v _ _ => ?_
      split
      · trivial
      · exact Fault.noConfusion
    · obtain ⟨_, u, -, h⟩ := on_bind_eq_ok h
      obtain ⟨_, v, hmask, h⟩ := on_bind_eq_ok h
      obtain ⟨-, hflags, hfilter, hattach, -⟩ := setMask_eq_ok hmask
      split at h
      · cases h
        exact ⟨hflags, hfilter, hattach⟩
      · cases h

end Calls

/-- One glyph, of which all is seen. -/
def oneGlyph : Session :=
  { book := {}, font := ⟨[]⟩, characters := {}, buffer := { items := [{ glyph := some "a" }], view := .whole 1 } }

theorem chain_bounds_one : (chain (apply 1 []) [] { input := some [["a"]], calls := [none, none] } 0).on oneGlyph =
    (.error .outOfRange, oneGlyph) :=
  (chain_bounds (apply 1 []) [] { input := some [["a"]], calls := [none, none] } 0 oneGlyph).2.1 (by decide) rfl

end Shape
end GlyphRules.Shaping
