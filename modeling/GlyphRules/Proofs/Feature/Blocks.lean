import GlyphRules.Proofs.Feature.Gathered
import GlyphRules.Proofs.Layout.Uses

/-! Blocks and the routines of their rules.

A rule in a lookup block belongs in the routine of the block, a rule that stands in a feature on its
own in a routine that the feature calls and that is of no lookup block. In a well nested file all do
exactly when no rule comes after a block inside its own block, and none to a routine that a call
took out (`foldlM_step_placed_iff`). -/
namespace GlyphRules.Feature

open Step List Dict

variable {b b' : Book} {tag : String} {i j : RoutineId} {features : List (String × List Lookup)} {log' : Log}

lemma CallAdded.calledBy_iff (h : CallAdded tag i b.features b'.features) {tag'} :
    b'.CalledBy tag' j ↔ b.CalledBy tag' j ∨ tag' = tag ∧ j = i := by
  obtain ⟨r, hr, hget⟩ := h
  unfold Book.CalledBy
  rw [hget]
  by_cases htag : tag' = tag
  · simp [htag, Lookup.routine?, hr, eq_comm]
  · simp [htag]

lemma CallAdded.last (h : CallAdded tag i features features')
    {calls} (hcalls : get? features' tag = some calls) :
    ∃ l, calls.getLast? = some l ∧ l.routine? = some i := by
  obtain ⟨r, hr, hget⟩ := h
  rw [hget, if_pos rfl] at hcalls
  cases hcalls
  exact ⟨.ref r, by simp, hr⟩

namespace Gathering

variable {s t u : Gathering} {log : Log} {e : Event} {es : List Event}

lemma Entered.calledBy {feature} (h : Entered feature i b.features b'.features)
    (hj : b.CalledBy tag j) : b'.CalledBy tag j := by
  cases feature with
  | none =>
    rw [Book.CalledBy, h]
    exact hj
  | some _ => exact (CallAdded.calledBy_iff h).2 (.inl hj)

/-! ### Well nested events -/

/-- The log at the end of a run. -/
def logOf (s : Gathering) (log : Log) : List Event → Log
  | [] => log
  | e :: es =>
    match s.step e with
    | .ok t => logOf t (log.note s e) es
    | .error _ => log

lemma logOf_cons (h : s.step e = .ok t) : logOf s log (e :: es) = logOf t (log.note s e) es := by
  rw [logOf, h]

/-- Whether an event may come where it comes: features stand side by side, lookup blocks inside
them or on their own, and rules in blocks. There are no flags. A feature that is opened again does
not find an open routine without rules. -/
def fits (s : Gathering) (log : Log) (e : Event) : Bool :=
  s.understands e && match e, log.blocks with
    | .openFeature name, blocks =>
      blocks.isEmpty && !(Dict.has s.book.features name && { s with feature := some name }.idle?.isSome)
    | .closeFeature, .feature _ :: _ | .closeLookup, .lookup _ :: _ => true
    | .closeFeature, _ | .closeLookup, _ => false
    | .rule _ _, blocks => !blocks.isEmpty
    | .flag _ _, _ => false
    | _, _ => true

def Home (s : Gathering) (log : Log) (i : RoutineId) : Prop :=
  match log.latest with
  | some r => r = i ∧ i ∈ log.lookups
  | none => i ∉ log.lookups ∧ ∃ tag, s.feature = some tag ∧ (i ∈ s.book.order → s.book.CalledBy tag i)

def Around (s : Gathering) (log : Log) : Prop :=
  ∃ ls : List RoutineId, log.blocks = ls.map .lookup ++ s.feature.toList.map .feature ∧
    (∀ r ∈ ls, r ∈ log.lookups) ∧ (s.routine = none → ls = [])

/-- The log fits the state. An open routine without rules is what its feature calls last. -/
structure Nested (s : Gathering) (log : Log) : Prop extends Sound s log where
  blocks : Around s log
  lookups : ∀ r ∈ log.lookups, r < s.book.routines.size
  closed : s.routine = none → log.latest = none
  home : ∀ i, s.routine = some i → Home s log i
  last : ∀ {tag i calls}, s.idle? = some (tag, i) → Dict.get? s.book.features tag = some calls →
    ∃ l, calls.getLast? = some l ∧ l.routine? = some i

lemma Nested.start (hb : Apart s.book) (hr : s.routine = none) (hf : s.feature = none) : Nested s {} := by
  refine ⟨.start hb hr, ⟨[], ?_, by simp, fun _ => rfl⟩, by simp, fun _ => rfl, by simp [hr], fun hidle => ?_⟩
  · rw [hf]
    rfl
  · cases hf.symm.trans (idle?_eq_some.1 hidle).1

lemma Nested.overdrawn (h : Nested s log) : s.overdrawn = false := by
  unfold Gathering.overdrawn
  cases hidle : s.idle? with
  | none => rfl
  | some idle =>
    cases hcalls : get? s.book.features idle.1 with
    | none => simp [hcalls]
    | some calls =>
      obtain ⟨l, hl, -⟩ := h.last hidle hcalls
      cases calls with
      | nil => cases hl
      | cons => simp [hcalls]

/-- Nothing but the call of the open routine is taken out of a feature. -/
lemma Nested.dropped (h : Nested s log) (hd : s.dropped = .ok features) (hj : s.book.CalledBy tag j)
    (hidle : ∀ f, s.idle? ≠ some (f, j)) : ({ s.book with features } : Book).CalledBy tag j := by
  unfold Gathering.dropped dropCall at hd
  cases hi : s.idle? with
  | none =>
    rw [hi] at hd
    cases hd
    exact hj
  | some idle =>
    simp only [hi] at hd
    cases hcalls : get? s.book.features idle.1 with
    | none =>
      rw [hcalls] at hd
      cases hd
      exact hj
    | some calls =>
      obtain ⟨l, hlast, hl⟩ := h.last hi hcalls
      obtain ⟨init, rfl⟩ := List.getLast?_eq_some_iff.1 hlast
      have kept : features = set s.book.features idle.1 init := by
        have rest := @dropLast_concat _ init l
        rw [hcalls] at hd
        generalize init ++ [l] = calls at hd rest
        cases calls with
        | nil => cases hd
        | cons => exact rest ▸ (Except.ok.inj hd).symm
      obtain ⟨x, hx, hxj⟩ := hj
      refine ⟨x, ?_, hxj⟩
      rw [kept, get?_set]
      split
      · next htag =>
        rw [htag, hcalls, Option.getD_some, mem_append, mem_singleton] at hx
        refine hx.resolve_right fun hxl => hidle idle.1 ?_
        cases hl.symm.trans (hxl ▸ hxj)
        rw [hi]
      · exact hx

/-! ### What stays where it is -/

/-- Later on rules are where they were, and the routines that have rules are called as before. -/
structure Later (s : Gathering) (log : Log) (t : Gathering) (log' : Log) : Prop where
  adds : Adds s.book t.book
  lookups : ∀ i < s.book.routines.size, i ∈ log'.lookups ↔ i ∈ log.lookups
  calls : ∀ {tag i}, s.book.ruleIds i ≠ [] → s.book.CalledBy tag i → t.book.CalledBy tag i

lemma Later.trans {log' log''} (hs : Sound s log) (h : Later s log t log') (h' : Later t log' u log'') :
    Later s log u log'' := by
  refine ⟨h.adds.trans h'.adds, fun i hi => ?_, fun {tag i} hids hcall => h'.calls ?_ (h.calls hids hcall)⟩
  · rw [h'.lookups i (hi.trans_le h.adds.routines), h.lookups i hi]
  · obtain ⟨id, hid⟩ := exists_mem_of_ne_nil _ hids
    exact ne_nil_of_mem ((h.adds.ruleIds i id (hs.apart.within i id hid)).2 hid)

lemma calledBy_congr (h : b'.features = b.features) : b'.CalledBy tag i ↔ b.CalledBy tag i := by
  unfold Book.CalledBy
  rw [h]

lemma Does.later (hn : Nested s log) (hf : fits s log e) (h : Does s t e) : Later s log t (log.note s e) := by
  have busy {i} (hids : s.book.ruleIds i ≠ []) (f) : s.idle? ≠ some (f, i) := fun hidle =>
    hids (idle?_eq_some.1 hidle).2.2.1
  refine ⟨(h.adds hn.apart hn.known).2.1, fun i hi => ?_, fun {tag i} hids hcall => ?_⟩
  · cases e with
    | openLookup => exact (mem_cons).trans (or_iff_right hi.ne)
    | flag => simp [fits] at hf
    | _ => exact Iff.rfl
  · cases e with
    | closeFeature =>
      obtain ⟨features, hd, closes⟩ := h
      exact (calledBy_congr closes.features).2 (hn.dropped hd hcall (busy hids))
    | openLookup =>
      obtain ⟨features, hd, opened⟩ := h
      exact Entered.calledBy (b := { s.book with features }) opened.calls (hn.dropped hd hcall (busy hids))
    | call =>
      obtain ⟨features, _, _, hd, -, -, calls⟩ := h
      exact (CallAdded.calledBy_iff calls.calls).2 (.inl (hn.dropped hd hcall (busy hids)))
    | flag => simp [fits] at hf
    | rule =>
      obtain ⟨o, _, _, -, -, puts, hcase⟩ := h
      refine (calledBy_congr puts.features).2 ?_
      rcases hcase with ⟨rfl, -⟩ | ⟨hnone, opened⟩
      · exact hcall
      · exact Entered.calledBy opened.calls hcall
    | openFeature | closeLookup | script | language | foreign => exact (calledBy_congr h.1.features).2 hcall

lemma Opens.last (h : Opens s t features) {calls} (hidle : t.idle? = some (tag, i))
    (hcalls : get? t.book.features tag = some calls) : ∃ l, calls.getLast? = some l ∧ l.routine? = some i := by
  obtain ⟨hf, hr, -⟩ := idle?_eq_some.1 hidle
  cases h.routine.symm.trans hr
  have entered := h.calls
  rw [← h.feature, hf] at entered
  exact CallAdded.last entered hcalls

/-- A step that keeps the open routine: it is to be seen who calls it, as long as it is in force. -/
lemma Nested.keep (hn : Nested s log) (sound : Sound t log') (hr : t.routine = s.routine) (hf : t.feature = s.feature)
    (hsize : t.book.routines.size = s.book.routines.size) (hlatest : log'.latest = log.latest)
    (hlookups : log'.lookups = log.lookups) (blocks : Around t log')
    (called : ∀ {tag j}, s.feature = some tag → j ∈ t.book.order → (j ∈ s.book.order → s.book.CalledBy tag j) →
      t.book.CalledBy tag j)
    (last : ∀ {tag j calls}, t.idle? = some (tag, j) → get? t.book.features tag = some calls →
      ∃ l, calls.getLast? = some l ∧ l.routine? = some j) : Nested t log' := by
  refine ⟨sound, blocks, by rw [hlookups, hsize]; exact hn.lookups, by rw [hr, hlatest]; exact hn.closed,
    fun j hj => ?_, last⟩
  have home := hn.home j (hr ▸ hj)
  unfold Home at home ⊢
  rw [hlatest, hlookups, hf]
  cases hl : log.latest with
  | some r => simpa only [hl] using home
  | none =>
    rw [hl] at home
    obtain ⟨hout, tag, htag, hcall⟩ := home
    exact ⟨hout, tag, htag, fun hin => called htag hin hcall⟩

lemma Stays.nested (hn : Nested s log) (h : Stays s t) (hf : t.feature = s.feature) (sound : Sound t log')
    (hlatest : log'.latest = log.latest) (hlookups : log'.lookups = log.lookups) (blocks : Around t log') :
    Nested t log' :=
  hn.keep sound h.routine hf h.routines hlatest hlookups blocks
    (fun _ hin hcall => (calledBy_congr h.features).2 (hcall (h.order ▸ hin)))
    fun hidle hcalls => hn.last (h.idle? hn.apart hf ▸ hidle) (h.features ▸ hcalls)

lemma Calls.nested (hn : Nested s log) (hd : s.dropped = .ok features) (hf : s.feature = some tag)
    (h : Calls s t features tag i) (sound : Sound t log') (hlatest : log'.latest = log.latest)
    (hlookups : log'.lookups = log.lookups) (blocks : Around t log') : Nested t log' := by
  refine hn.keep sound h.routine h.feature h.routines hlatest hlookups blocks (fun {tag' j} hf' hin hcall => ?_)
    fun {tag' j calls} hidle hcalls => ?_
  · cases hf.symm.trans hf'
    rw [CallAdded.calledBy_iff (b := { s.book with features }) h.calls]
    rcases (h.order j).1 hin with hin | hin
    · obtain ⟨hin, hidle⟩ := (mem_inForce hn.apart.nodup).1 hin
      exact .inl (hn.dropped hd (hcall hin) hidle)
    · exact .inr ⟨rfl, mem_singleton.1 hin⟩
  · obtain ⟨hf', hr, hids, hin⟩ := idle?_eq_some.1 hidle
    cases (h.feature.trans hf).symm.trans hf'
    rw [h.routine] at hr
    rw [h.alike.ruleIds hn.apart] at hids
    rcases (h.order j).1 hin with hin | hin
    · obtain ⟨hin, hidle⟩ := (mem_inForce hn.apart.nodup).1 hin
      exact absurd (idle?_eq_some.2 ⟨hf, hr, hids, hin⟩) (hidle tag)
    · cases mem_singleton.1 hin
      exact h.calls.last hcalls

lemma Puts.nested (hn : Nested s log) (h : Puts s t l) (sound : Sound t log) : Nested t log := by
  have routine : t.routine = s.routine := by rw [h.rest]
  have feature : t.feature = s.feature := by rw [h.rest]
  refine hn.keep sound routine feature h.routines rfl rfl (by rw [Around, feature, routine]; exact hn.blocks)
    (fun _ hin hcall => (calledBy_congr h.features).2 (hcall (h.order ▸ hin))) fun {tag i calls} hidle hcalls => ?_
  obtain ⟨hf, hr, hids, hin⟩ := idle?_eq_some.1 hidle
  rw [routine] at hr
  rw [h.own i hr, append_eq_nil_iff] at hids
  exact hn.last (idle?_eq_some.2 ⟨feature ▸ hf, hr, hids.1, h.order ▸ hin⟩) (h.features ▸ hcalls)

lemma Opens.nested (h : Opens s t features) (sound : Sound t log') (blocks : Around t log')
    (hlookups : ∀ r ∈ log'.lookups, r < s.book.routines.size + 1) (home : Home t log' s.book.routines.size) :
    Nested t log' := by
  refine ⟨sound, blocks, h.routines ▸ hlookups, fun hr => ?_, fun i hi => ?_, h.last⟩
  · cases h.routine.symm.trans hr
  · cases h.routine.symm.trans hi
    exact home

lemma Does.nested (hn : Nested s log) (hf : fits s log e) (h : Does s t e) : Nested t (log.note s e) := by
  have sound := h.sound hn.toSound
  obtain ⟨ls, hblocks, hls, hnone⟩ := hn.blocks
  unfold fits at hf
  rw [Bool.and_eq_true, hblocks] at hf
  cases e with
  | openFeature name =>
    obtain ⟨stays, hfeature⟩ := h
    rw [Bool.and_eq_true, List.isEmpty_iff, List.append_eq_nil_iff, List.map_eq_nil_iff] at hf
    obtain ⟨-, ⟨rfl, hout⟩, hspared⟩ := hf
    refine ⟨sound, ⟨[], ?_, hls, fun _ => rfl⟩, stays.routines ▸ hn.lookups, stays.routine ▸ hn.closed, fun i hi => ?_,
      fun {tag i calls} hidle hcalls => ?_⟩
    · show .feature name :: log.blocks = _
      rw [hblocks, hout, hfeature]
      rfl
    · have home := hn.home i (stays.routine ▸ hi)
      show Home t { log with blocks := _ } i
      unfold Home at home ⊢
      cases hl : log.latest with
      | some r => simpa only [hl] using home
      | none =>
        rw [hl] at home
        obtain ⟨-, tag, htag, -⟩ := home
        rw [htag] at hout
        cases hout
    · have same : t.idle? = { s with feature := some name }.idle? :=
        Stays.idle? hn.apart ⟨stays.alike, stays.routines, stays.order, stays.features,
          stays.routine⟩ hfeature
      cases hfeature.symm.trans (idle?_eq_some.1 hidle).1
      rw [← same, hidle, has_eq_isSome, ← stays.features, hcalls] at hspared
      cases hspared
  | closeFeature =>
    obtain ⟨features, hd, closes⟩ := h
    cases ls with
    | cons => cases hf.2
    | nil =>
      refine ⟨sound, ⟨[], ?_, by simp, fun _ => rfl⟩, fun r hr => closes.routines ▸ hn.lookups r hr, fun _ => rfl,
        fun i hi => ?_, fun {tag i calls} hidle => ?_⟩
      · show log.blocks.tail = _
        rw [hblocks, closes.feature]
        cases s.feature <;> rfl
      · cases closes.routine.symm.trans hi
      · cases closes.feature.symm.trans (idle?_eq_some.1 hidle).1
  | openLookup =>
    obtain ⟨features, -, opens⟩ := h
    refine opens.nested sound ⟨s.book.routines.size :: ls, ?_, ?_, fun hr => ?_⟩ (fun r hr => ?_) ⟨rfl, mem_cons_self⟩
    · rw [opens.feature]
      exact congrArg (Block.lookup _ :: ·) hblocks
    · exact forall_mem_cons.2 ⟨mem_cons_self, fun r hr => mem_cons_of_mem _ (hls r hr)⟩
    · cases opens.routine.symm.trans hr
    · rcases mem_cons.1 hr with rfl | hr
      · exact Nat.lt_succ_self _
      · exact Nat.lt_succ_of_lt (hn.lookups r hr)
  | closeLookup =>
    cases ls with
    | nil => cases hfeature : s.feature <;> simp [hfeature] at hf
    | cons r ls =>
      refine h.1.nested hn h.2 sound rfl rfl ⟨ls, ?_, fun r' hr => hls r' (.tail _ hr), fun hr => ?_⟩
      · show log.blocks.tail = _
        rw [hblocks, h.2]
        rfl
      · cases hnone (h.1.routine ▸ hr)
  | call name =>
    obtain ⟨features, tag, i, hd, hfeature, -, calls⟩ := h
    refine calls.nested hn hd hfeature sound rfl rfl ⟨ls, ?_, hls, calls.routine ▸ hnone⟩
    rwa [calls.feature]
  | script | language => exact h.1.nested hn h.2 sound rfl rfl ⟨ls, by rwa [h.2], hls, h.1.routine ▸ hnone⟩
  | flag => cases hf.2
  | rule spot entry =>
    obtain ⟨o, _, _, -, -, puts, hcase⟩ := h
    rcases hcase with ⟨rfl, -⟩ | ⟨hclosed, opens⟩
    · exact puts.nested hn sound
    · cases hnone hclosed
      obtain ⟨tag, htag⟩ : ∃ tag, s.feature = some tag := by
        cases hfeature : s.feature with
        | none => simp [hfeature] at hf
        | some tag => exact ⟨tag, rfl⟩
      have opened : Sound o log := by
        obtain ⟨apart, -⟩ := opens.toTurns.adds hn.apart
        refine ⟨apart, fun i hi => ?_, (iff_of_false ?_ Bool.false_ne_true).trans opens.left⟩
        · cases opens.routine.symm.trans hi
          exact opens.routines ▸ Nat.lt_succ_self _
        · rw [hn.left, hclosed]
          simp
      refine puts.nested (opens.nested opened ⟨[], ?_, by simp, fun _ => rfl⟩ (fun r hr => ?_) ?_) sound
      · rwa [opens.feature]
      · exact Nat.lt_succ_of_lt (hn.lookups r hr)
      · have calls := opens.calls
        rw [htag] at calls
        show Home o log _
        rw [Home, hn.closed hclosed]
        refine ⟨fun hin => Nat.lt_irrefl _ (hn.lookups _ hin), tag, opens.feature.trans htag, fun _ => ?_⟩
        exact (CallAdded.calledBy_iff calls).2 (.inr ⟨rfl, rfl⟩)
  | foreign => cases hf.1

/-! ### Runs -/

lemma step_nested (hn : Nested s log) (hf : fits s log e) :
    ∃ t, s.step e = .ok t ∧ Does s t e ∧ Nested t (log.note s e) ∧ Later s log t (log.note s e) := by
  have hu : s.understands e = true := by
    unfold fits at hf
    rw [Bool.and_eq_true] at hf
    exact hf.1
  obtain ⟨t, ht, does⟩ := step_does hn.apart hn.known hu (by rw [hn.overdrawn, Bool.and_false])
  exact ⟨t, ht, does, does.nested hn hf, does.later hn hf⟩

lemma fits_of_along (h : along fit s log (e :: es)) : fit s log e = true := by
  rw [along, Bool.and_eq_true] at h
  exact h.1

/-- A run through well nested events comes to its end. -/
lemma foldlM_step_nested (hn : Nested s log) (hf : along fits s log es) :
    ∃ u, es.foldlM step s = .ok u ∧ Nested u (logOf s log es) ∧ Later s log u (logOf s log es) := by
  induction es generalizing s log with
  | nil => exact ⟨s, rfl, hn, .refl _, fun _ _ => Iff.rfl, fun _ h => h⟩
  | cons e es ih =>
    obtain ⟨t, ht, -, nested, later⟩ := step_nested hn (fits_of_along hf)
    obtain ⟨u, hu, nested', later'⟩ := ih nested ((along_cons ht).1 hf).2
    rw [foldlM_cons, ht, logOf_cons ht]
    exact ⟨u, hu, nested', later.trans hn.toSound later'⟩

lemma flatMap_givens (hn : Nested s log) (hf : along fits s log es) (h : es.foldlM step s = .ok u) :
    (givens s log es).flatMap Given.rules = List.range' s.book.rules.size (u.book.rules.size - s.book.rules.size) := by
  induction es generalizing s log with
  | nil =>
    cases h
    simp [givens]
  | cons e es ih =>
    obtain ⟨t, ht, does, nested, later⟩ := step_nested hn (fits_of_along hf)
    rw [foldlM_cons, ht] at h
    have hrest := ((along_cons ht).1 hf).2
    obtain ⟨u', hu', -, later'⟩ := foldlM_step_nested nested hrest
    cases h.symm.trans hu'
    have first : (givenBy s t log e).flatMap Given.rules =
        List.range' s.book.rules.size (t.book.rules.size - s.book.rules.size) := by
      have none (h : t.book.rules.size = s.book.rules.size) :
          [] = List.range' s.book.rules.size (t.book.rules.size - s.book.rules.size) := by
        rw [h, Nat.sub_self, List.range'_zero]
      cases e with
      | rule => exact append_nil _
      | closeFeature | openLookup => exact none does.choose_spec.2.alike.rules
      | call =>
        obtain ⟨_, _, _, -, -, -, calls⟩ := does
        exact none calls.alike.rules
      | flag =>
        have fit := fits_of_along hf
        simp [fits] at fit
      | openFeature | closeLookup | script | language | foreign => exact none does.1.alike.rules
    obtain ⟨n, hn⟩ := Nat.exists_eq_add_of_le later.adds.rules
    obtain ⟨m, hm⟩ := Nat.exists_eq_add_of_le later'.adds.rules
    rw [givens_cons ht, flatMap_append, first, ih nested hrest h, hm, hn, Nat.add_sub_cancel_left,
      Nat.add_sub_cancel_left, Nat.add_assoc, Nat.add_sub_cancel_left, List.range'_append_1]

/-! ### Rules where they belong -/

/-- The routine that rules in a block belong in. -/
def Owns (b : Book) (lookups : List RoutineId) (i : RoutineId) : Option Block → Prop
  | some (.lookup r) => i = r
  | some (.feature tag) => b.CalledBy tag i ∧ i ∉ lookups
  | none => False

/-- Each rule of an entry is as it was given, in a routine in force that the block owns. -/
def Given.Placed (g : Given) (b : Book) (lookups : List RoutineId) : Prop :=
  ∀ id ∈ g.rules, (b.rule id).body ∈ g.stated ∧ ∃ i ∈ b.order, id ∈ b.ruleIds i ∧ Owns b lookups i g.block

/-- The lookup block that is the innermost open block. -/
def Log.inside (log : Log) : Option RoutineId :=
  match log.blocks.head? with
  | some (.lookup r) => some r
  | _ => none

/-- Whether rules come to a routine in force, that of the innermost block if it is a lookup block
and else one that is of no lookup block. -/
def atHome (s : Gathering) (log : Log) : Event → Bool
  | .rule spot entry => ((s.said spot entry).toOption.getD []).isEmpty || log.latest == log.inside && !log.left
  | _ => true

/-- The innermost block owns the open routine, now and later, if the routine is its own. -/
lemma owns_iff (hn : Nested s log) (hb : log.blocks ≠ []) (hi : s.routine = some i) (hin : i ∈ s.book.order)
    {lookups} (hcalls : ∀ {tag}, s.book.CalledBy tag i → b.CalledBy tag i)
    (hlookups : i ∈ lookups ↔ i ∈ log.lookups) : Owns b lookups i log.blocks.head? ↔ log.latest = log.inside := by
  obtain ⟨ls, hblocks, hls, -⟩ := hn.blocks
  have home := hn.home i hi
  unfold Home at home
  unfold Log.inside
  cases ls with
  | nil =>
    cases hf : s.feature with
    | none => simp [hblocks, hf] at hb
    | some tag =>
      have head : log.blocks.head? = some (.feature tag) := by simp [hblocks, hf]
      rw [head]
      cases hl : log.latest with
      | some r =>
        rw [hl] at home
        simp [Owns, hlookups, home.2]
      | none =>
        rw [hl] at home
        obtain ⟨hout, tag', htag, hcall⟩ := home
        cases hf.symm.trans htag
        exact iff_of_true ⟨hcalls (hcall hin), hlookups.not.2 hout⟩ rfl
  | cons r ls =>
    have head : log.blocks.head? = some (.lookup r) := by simp [hblocks]
    rw [head]
    cases hl : log.latest with
    | some r' =>
      rw [hl] at home
      simp [Owns, home.1]
    | none =>
      rw [hl] at home
      refine iff_of_false (fun h => home.1 ?_) (by simp)
      exact (h) ▸ hls r mem_cons_self

/-- What an entry gives is where it belongs in the end if it came to the routine of its block. -/
lemma givenBy_placed_iff (hn : Nested s log) (hf : fits s log e) (h : Does s t e) (hb : Apart u.book)
    (later : Later t (log.note s e) u log') :
    (∀ g ∈ givenBy s t log e, g.Placed u.book log'.lookups) ↔ atHome s log e = true := by
  cases e with
  | rule spot entry =>
    have nested : Nested t log := h.nested hn hf
    have hblocks : log.blocks ≠ [] := by
      rw [fits, Bool.and_eq_true] at hf
      simpa using hf.2
    obtain ⟨kept, hall, hbodies, -, hnil, sub, home⟩ := h.given log
    show (∀ g ∈ [given s t log spot entry], _) ↔ (_ || _) = true
    rw [forall_mem_singleton, Bool.or_eq_true, Bool.and_eq_true, beq_iff_eq, Bool.not_eq_true', Bool.eq_false_iff]
    show _ ↔ (given s t log spot entry).stated.isEmpty = true ∨ _
    rw [List.isEmpty_iff, ← hnil]
    by_cases hne : (given s t log spot entry).rules = []
    · exact iff_of_true (fun id hid => by rw [hne] at hid; cases hid) (.inl hne)
    rw [or_iff_right hne]
    obtain ⟨first, hfirst⟩ := exists_mem_of_ne_nil _ hne
    obtain ⟨i, hi, hhome⟩ := home first hfirst
    have ids : t.book.ruleIds i ≠ [] := ne_nil_of_mem hhome
    have lt := nested.known i hi
    have stays {id} (hid : id ∈ (given s t log spot entry).rules) : id < t.book.rules.size ∧ id ∈ u.book.ruleIds i := by
      obtain ⟨j, hj, hin⟩ := home id hid
      cases hi.symm.trans hj
      have old := nested.apart.within i id hin
      exact ⟨old, (later.adds.ruleIds i id old).2 hin⟩
    have force : i ∈ u.book.order ↔ i ∈ t.book.order := by
      refine ⟨fun hin => by_contra fun hout => later.adds.gone i lt hout hin, fun hin => ?_⟩
      exact later.adds.kept i hin first hhome (stays hfirst).1
    have left : log.left ≠ true ↔ i ∈ t.book.order := by
      rw [Ne, nested.left, hi]
      simp
    have owns hin := owns_iff nested hblocks hi hin (later.calls ids) (later.lookups i lt)
    rw [left]
    constructor
    · intro hplaced
      obtain ⟨-, j, hj, hid, howns⟩ := hplaced first hfirst
      cases hb.apart hid (stays hfirst).2
      exact ⟨(owns (force.1 hj)).1 howns, force.1 hj⟩
    · rintro ⟨hlatest, hin⟩ id hid
      refine ⟨sub ?_, i, force.2 hin, (stays hid).2, (owns hin).2 hlatest⟩
      rw [later.adds.body id (stays hid).1, ← hbodies]
      exact mem_map_of_mem hid
  | _ => exact iff_of_true (fun g hg => by cases hg) rfl

lemma placed_iff (hn : Nested s log) (hf : along fits s log es) (h : es.foldlM step s = .ok u) :
    (∀ g ∈ givens s log es, g.Placed u.book (logOf s log es).lookups) ↔ along atHome s log es = true := by
  induction es generalizing s log with
  | nil => exact iff_of_true (fun g hg => by cases hg) rfl
  | cons e es ih =>
    obtain ⟨t, ht, does, nested, -⟩ := step_nested hn (fits_of_along hf)
    rw [foldlM_cons, ht] at h
    have hrest := ((along_cons ht).1 hf).2
    obtain ⟨u', hu', nested', later⟩ := foldlM_step_nested nested hrest
    cases h.symm.trans hu'
    rw [givens_cons ht, along_cons ht, logOf_cons ht, forall_mem_append, ih nested hrest h,
      givenBy_placed_iff hn (fits_of_along hf) does nested'.apart later]

/-- A well nested file without flags is read to its end. In each routine the rules stand in the
order they are given in, and they are all where they belong exactly if each comes to a routine in
force, that of its lookup block or, in a feature, one of no lookup block. -/
theorem foldlM_step_placed_iff {start : Gathering} (hbook : Apart start.book) (hopen : start.routine = none)
    (houtside : start.feature = none) {events : List Event} (hfits : along fits start {} events = true) :
    ∃ t, events.foldlM step start = .ok t ∧ (givens start {} events).flatMap Given.rules =
        List.range' start.book.rules.size (t.book.rules.size - start.book.rules.size) ∧
      (∀ i, (t.book.ruleIds i).Pairwise (· < ·)) ∧
      ((∀ g ∈ givens start {} events, g.Placed t.book (logOf start {} events).lookups) ↔
        along atHome start {} events = true) := by
  have nested := Nested.start hbook hopen houtside
  obtain ⟨t, ht, nested', -⟩ := foldlM_step_nested nested hfits
  exact ⟨t, ht, flatMap_givens nested hfits ht, nested'.apart.sorted, placed_iff nested hfits ht⟩

/-- A feature with a lookup block in it, and an entry after the block. -/
def blockThen (last : Event) : List Event :=
  [.openFeature "liga", .rule {} (swap "x" "y"), .openLookup {} "A", .rule {} (swap "a" "b"), .closeLookup, last,
    .closeFeature]

theorem foldlM_step_placed_call : along fits {} {} (blockThen (.call "A")) = true ∧
      ∃ t, (blockThen (.call "A")).foldlM step {} = .ok t ∧
        ∀ g ∈ givens {} {} (blockThen (.call "A")), g.Placed t.book (logOf {} {} (blockThen (.call "A"))).lookups := by
  have hfits : along fits {} {} (blockThen (.call "A")) = true := by decide +kernel
  obtain ⟨t, ht, -, -, hplaced⟩ := foldlM_step_placed_iff apart_empty rfl rfl hfits
  exact ⟨hfits, t, ht, hplaced.2 (by decide +kernel)⟩

/-- A rule after a lookup block goes to the routine of the block. -/
theorem foldlM_step_misplaced : along fits {} {} (blockThen (.rule {} (swap "c" "d"))) = true ∧
      ∃ t, (blockThen (.rule {} (swap "c" "d"))).foldlM step {} = .ok t ∧
        ¬∀ g ∈ givens {} {} (blockThen (.rule {} (swap "c" "d"))),
          g.Placed t.book (logOf {} {} (blockThen (.rule {} (swap "c" "d")))).lookups := by
  have hfits : along fits {} {} (blockThen (.rule {} (swap "c" "d"))) = true := by decide +kernel
  have nested := Nested.start (s := {}) apart_empty rfl rfl
  obtain ⟨t, ht, -⟩ := foldlM_step_nested nested hfits
  exact ⟨hfits, t, ht, (placed_iff nested hfits ht).not.2 (by decide +kernel)⟩

end Gathering

end GlyphRules.Feature
