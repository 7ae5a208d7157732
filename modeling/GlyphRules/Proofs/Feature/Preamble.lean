import GlyphRules.Proofs.Feature.Keeping

/-! Routines prepared for writing.

Before anything is written, every routine in force gets a name and so does every call of its
chains; nothing else of it is changed (`prepare_on`). Writing it then changes no routine
that was prepared, only adds to the book. -/
namespace GlyphRules.Feature

open Step List Rule Keeps Book Act

variable {id : RuleId} {b b' : Book}

/-! ### Preambles -/

/-- The calls of a chain are left as they are, and no routine is added. -/
structure ChainCalls (id : RuleId) (b b' : Book) : Prop where
  size : b'.routines.size = b.routines.size
  calls : ∀ c, (b.rule id).body = .chaining c → ∃ c', (b'.rule id).body = .chaining c' ∧ c'.calls = c.calls

instance (id : RuleId) : Std.Refl (ChainCalls id) := ⟨fun _ => ⟨rfl, fun c hc => ⟨c, hc, rfl⟩⟩⟩

instance (id : RuleId) : Trans (ChainCalls id) (ChainCalls id) (ChainCalls id) := by
  refine ⟨fun h h' => ⟨h'.size.trans h.size, fun c hc => ?_⟩⟩
  obtain ⟨c', hc', hcalls⟩ := h.calls c hc
  obtain ⟨c'', hc'', hcalls'⟩ := h'.calls c' hc'
  exact ⟨c'', hc'', hcalls'.trans hcalls⟩

lemma ChainCalls.of_rules (hsize : b'.routines.size = b.routines.size) (h : b'.rules = b.rules) :
    ChainCalls id b b' := by
  refine ⟨hsize, fun c hc => ⟨c, ?_, rfl⟩⟩
  rwa [rule_of_eq h]

section Slots
variable {R : Book → Book → Prop} [Std.Refl R] [Trans R R R]
  (hsame : ∀ {b b' : Book}, b'.routines = b.routines → b'.rules = b.rules → b'.order = b.order →
    b'.features = b.features → R b b')
include hsame

lemma keeps_nextIndex : Keeps R nextIndex := by
  refine .bind .get fun b => ?_
  split
  · exact .throw _
  · exact .bind (.modify fun b => hsame rfl rfl rfl rfl) fun _ => .pure _
  · exact .bind (.modify fun b => hsame rfl rfl rfl rfl) fun _ => .pure _

lemma keeps_nameLongSlots (slots) : Keeps R (nameLongSlots slots) := by
  refine .mapM _ fun s _ => ?_
  split
  · split
    · exact .throw _
    · refine .bind (keeps_nextIndex hsame) fun n => fun b => ?_
      have named : R b (b.classFor (Text.sort s) ("class" ++ n)).2 := by
        unfold classFor
        split
        · exact Std.Refl.refl b
        · exact hsame rfl rfl rfl rfl
      exact named
  · exact .pure _

lemma keeps_chainSlots (halter : ∀ (f : Chaining → Chaining) (b : Book),
      (∀ c, (f c).calls = c.calls ∧ (f c).group = c.group) → R b (b.alterRule id (alterChain f))) (c) :
    Keeps R (chainSlots id c) := by
  have altered f hf :
      Keeps R (modify fun b => b.alterRule id (alterChain f)) := .modify fun b => halter f b hf
  unfold chainSlots
  split
  · exact .throw _
  · exact .bind (keeps_nameLongSlots hsame _) fun _ => .bind (altered _ fun _ => ⟨rfl, rfl⟩) fun _ =>
      .bind (keeps_nameLongSlots hsame _) fun _ => .bind (altered _ fun _ => ⟨rfl, rfl⟩) fun _ =>
      .bind (keeps_nameLongSlots hsame _) fun _ => altered _ fun _ => ⟨rfl, rfl⟩

end Slots

lemma keeping_alterChain (f) (b)
    (hf : ∀ c, (f c).calls = c.calls ∧ (f c).group = c.group) : Keeping b (b.alterRule id (alterChain f)) := by
  refine .alterRule b id ?_
  generalize b.rule id = r
  obtain ⟨body, -, -, -, -, -⟩ := r
  cases body with
  | chaining c => exact ⟨congrArg some (hf c).1, (hf c).2, (hf c).1⟩
  | _ => exact ⟨rfl, rfl, rfl⟩

lemma chainCalls_alterChain (f) (b)
    (hf : ∀ c, (f c).calls = c.calls ∧ (f c).group = c.group) : ChainCalls id b (b.alterRule id (alterChain f)) := by
  refine ⟨rfl, fun c hc => ?_⟩
  rcases b.rule_alterRule id (alterChain f) id with heq | ⟨-, heq⟩
  · exact ⟨c, heq ▸ hc, rfl⟩
  · refine ⟨f c, ?_, (hf c).1⟩
    rw [heq, alterChain, hc]

lemma nameCounts_iff (name) : nameCounts name = true ↔ ¬Unnamed name := by
  simp [nameCounts, Unnamed]

lemma nameCalled_on (b) (i) :
    Keeping b ((nameCalled i).on b).2 ∧ (∀ id, ChainCalls id b ((nameCalled i).on b).2) ∧
    ∀ b', (nameCalled i).on b = (.ok (), b') → i < b.routines.size → ¬Unnamed (b'.routine i).name := by
  have next : nextIndex.on b = (.error .wrongKind, b) ∨
      ∃ n x, nextIndex.on b = (.ok n, { b with classIndex := x }) := by
    rw [nextIndex, on_get_bind]
    split
    · exact .inl rfl
    · exact .inr ⟨_, _, rfl⟩
    · exact .inr ⟨_, _, rfl⟩
  rw [nameCalled, on_get_bind]
  by_cases hname : nameCounts (b.routine i).name = true
  · rw [hname]
    refine ⟨Std.Refl.refl b, fun id => Std.Refl.refl b, fun b' hrun hi => ?_⟩
    cases hrun
    exact (nameCounts_iff _).1 hname
  · have unnamed : Unnamed (b.routine i).name := by rwa [nameCounts_iff, not_not] at hname
    rw [Bool.not_eq_true] at hname
    rw [hname]
    simp only [Bool.not_false, if_true]
    rcases next with hnext | ⟨n, x, hnext⟩
    · rw [on_bind_error hnext]
      exact ⟨Std.Refl.refl b, fun id => Std.Refl.refl b, fun b' hrun _ => by cases hrun⟩
    · rw [on_bind_ok hnext]
      have counted : Keeping b { b with classIndex := x } := .of_same rfl rfl rfl rfl
      refine ⟨Trans.trans counted (Keeping.alterRoutine _ i ⟨rfl, rfl, rfl, .inr unnamed⟩),
        fun id => .of_rules (size_alterRoutine _ i _) rfl, fun b' hrun hi => ?_⟩
      cases hrun
      rw [routine_alterRoutine_self (b := { b with classIndex := x }) hi]
      simp [Unnamed]

lemma keeps_nameCall [Std.Refl R] [Trans R R R] (h : ∀ i, Keeps R (nameCalled i))
    (l) : Keeps R (nameCall l) := by
  unfold nameCall
  grind

lemma keeping_nameCall (l) : Keeps Keeping (nameCall l) :=
  keeps_nameCall (fun i b => (nameCalled_on b i).1) l

lemma nameCall_on {l l' : Lookup} (hl : ∃ n i, l = .ref ⟨n, some i⟩ ∧ i < b.routines.size)
    (hrun : (nameCall l).on b = (.ok l', b')) : l.TakesName b' l' ∧ l'.Ready := by
  obtain ⟨name, i, rfl, hi⟩ := hl
  obtain ⟨_, b₁, hnamed, hrun⟩ := on_bind_eq_ok hrun
  have named := (nameCalled_on b i).2.2 b₁ hnamed hi
  cases name with
  | none => cases hrun
  | some n =>
    cases hrun
    by_cases hn : nameCounts n = true
    · rw [if_pos hn]
      rw [nameCounts_iff] at hn
      obtain ⟨m, rfl⟩ : ∃ m, n = some m := by
        cases n with
        | none => exact absurd rfl hn
        | some m => exact ⟨m, rfl⟩
      exact ⟨.inl rfl, m, i, rfl, hn⟩
    · rw [if_neg hn]
      rw [nameCounts_iff, not_not] at hn
      refine ⟨.inr ⟨n, i, rfl, hn, rfl, named⟩, ?_⟩
      cases hown : (b'.routine i).name with
      | none =>
        rw [hown] at named
        exact absurd rfl named
      | some m =>
        rw [hown] at named
        exact ⟨m, i, rfl, named⟩

/-- Changing calls position by position is changing all of them in a row. -/
lemma entries_eachCall {calls calls'}
    (h : (eachCall f calls).on b = (.ok calls', b')) : (calls.entries.mapM f).on b = (.ok calls'.entries, b') := by
  induction calls generalizing b calls' with
  | nil =>
    cases h
    rfl
  | cons slot calls ih =>
    rw [eachCall, mapM_cons] at h
    obtain ⟨slot', b₁, hslot, h⟩ := on_bind_eq_ok h
    obtain ⟨rest, b₂, hrest, h⟩ := on_bind_eq_ok h
    cases h
    have later := ih hrest
    cases slot with
    | none =>
      cases hslot
      exact later
    | some ls =>
      obtain ⟨ls', b₃, hls, hslot⟩ := on_bind_eq_ok hslot
      cases hslot
      have whole : Calls.entries (some ls :: calls) = ls ++ Calls.entries calls := rfl
      rw [whole, mapM_append, on_bind_ok hls, on_bind_ok later]
      rfl

lemma mapM_nameCall_on {ls ls' : List Lookup} (hls : ∀ l ∈ ls, ∃ n i, l = .ref ⟨n, some i⟩ ∧ i < b.routines.size)
    (hb : b.Coherent) (hrun : (ls.mapM nameCall).on b = (.ok ls', b')) :
    Forall₂ (Lookup.TakesName b') ls ls' ∧ ∀ l ∈ ls', l.Ready := by
  induction ls generalizing b ls' with
  | nil =>
    cases hrun
    exact ⟨.nil, by simp⟩
  | cons l ls ih =>
    obtain ⟨l', b₁, ls', hl, hrest, rfl⟩ := on_mapM_cons hrun
    have known := hls l (.head _)
    obtain ⟨takes, ready⟩ := nameCall_on known hl
    obtain ⟨kept, hb₁⟩ := (keeping_nameCall l).of_on hl hb
    obtain ⟨kept', -⟩ := (mapM ls fun l _ => keeping_nameCall l).of_on hrest hb₁
    have grown {l : Lookup} (hl : ∃ n i, l = .ref ⟨n, some i⟩ ∧ i < b.routines.size) :
        ∃ n i, l = .ref ⟨n, some i⟩ ∧ i < b₁.routines.size := by
      obtain ⟨n, i, hl, hi⟩ := hl
      exact ⟨n, i, hl, hi.trans_le kept.routines⟩
    -- Naming the later calls does not rename the routine of the first.
    obtain ⟨takes', ready'⟩ := ih (fun l hl => grown (hls l (.tail _ hl))) hb₁ hrest
    refine ⟨.cons (kept'.takesName (grown known) takes) takes', fun x hx => ?_⟩
    rcases mem_cons.1 hx with rfl | hx
    · exact ready
    · exact ready' x hx

lemma chainPreamble_on (hc : (b.rule id).body = .chaining c) :
    Keeping b ((chainPreamble id c).on b).2 ∧
    ∀ b', (chainPreamble id c).on b = (.ok (), b') → b.Coherent → b.CallsKnown id →
      ∀ l ∈ (b'.rule id).chained.entries, l.Ready := by
  have slots : Keeps Keeping (chainSlots id c) := keeps_chainSlots .of_same keeping_alterChain c
  have names : Keeps Keeping (eachCall nameCall c.calls) := keeps_eachCall keeping_nameCall c.calls
  have slots' : Keeps (ChainCalls id) (chainSlots id c) :=
    keeps_chainSlots (fun h h' _ _ => .of_rules (by rw [h]) h') chainCalls_alterChain c
  have names' : Keeps (ChainCalls id) (eachCall nameCall c.calls) :=
    keeps_eachCall (keeps_nameCall fun i b => (nameCalled_on b i).2.1 id) c.calls
  unfold chainPreamble
  rcases hslots : (chainSlots id c).on b with ⟨e | ⟨⟩, b₁⟩
  · rw [on_bind_error hslots]
    exact ⟨slots.of_on hslots, fun b' hrun => by cases hrun⟩
  rcases hnames : (eachCall nameCall c.calls).on b₁ with ⟨e | calls, b₂⟩
  · rw [on_bind_ok hslots, on_bind_error hnames]
    exact ⟨Trans.trans (slots.of_on hslots) (names.of_on hnames), fun b' hrun => by cases hrun⟩
  rw [on_bind_ok hslots, on_bind_ok hnames]
  have alike := slots'.of_on hslots
  have alike' := names'.of_on hnames
  -- The calls that get names were read before the slots changed. The rule still makes them when
  -- they are written back.
  obtain ⟨c₁, hc₁, hcalls₁⟩ := alike.calls c hc
  obtain ⟨c₂, hc₂, hcalls₂⟩ := alike'.calls c₁ hc₁
  rw [hcalls₁] at hcalls₂
  have known {b' : Book} (hb' : b'.CallsKnown id) (hsize : b'.routines.size = b₁.routines.size) {c'}
      (hc' : (b'.rule id).body = .chaining c') (hcalls : c'.calls = c.calls) :
      ∀ l ∈ c.calls.entries, ∃ n i, l = .ref ⟨n, some i⟩ ∧ i < b₁.routines.size := by
    rwa [CallsKnown, chained_chaining hc', hcalls, hsize] at hb'
  have written := entries_eachCall hnames
  have kept := slots.of_on hslots
  refine ⟨fun hb => ?_, fun b' hrun hb hcalls => ?_⟩
  · have set : Keeping b₂ (b₂.setCalls id calls) := by
      refine .setCalls hc₂ fun hcalls => ?_
      rw [hcalls₂]
      exact (mapM_nameCall_on (known hcalls alike'.size hc₂ hcalls₂) (kept hb).2 written).1
    exact (Trans.trans kept (Trans.trans (names.of_on hnames) set)) hb
  · cases hrun
    have ready := (mapM_nameCall_on (known hcalls alike.size.symm hc rfl) (kept hb).2 written).2
    rwa [rule_setCalls (lt_of_chaining hc₂), if_pos (shares_iff.2 (.inl rfl)),
      chained_chaining (RuleResolves.body_withCalls hc₂ calls)]

lemma keeps_defineMarks (name) (run) :
    Keeps Keeping (defineMarks name run) := by
  intro s
  rw [defineMarks, on_get_bind]
  split
  · exact Std.Refl.refl s
  · exact .of_same rfl rfl rfl rfl

lemma attachmentPreamble_on (ha : (b.rule id).body = .attachment a) :
    Keeping b ((attachmentPreamble id a).on b).2 ∧
    ∀ sts b', (attachmentPreamble id a).on b = (.ok sts, b') → ∀ st ∈ sts, Plain st := by
  unfold attachmentPreamble
  split
  · exact ⟨Std.Refl.refl b, fun sts b' hrun => by cases hrun; simp⟩
  · rw [on_bind_ok (on_modify _ b)]
    have grouped : Keeping b (b.alterRule id fun r => { r with body := .attachment (groupAnchors a) }) := by
      refine .alterRule b id ⟨?_, ?_, ?_⟩
      · simp [calls, ha]
      · simp [group?, ha]
      · simp [chained, ha]
    refine ⟨Trans.trans grouped
      (bind (.mapM _ fun run _ => keeps_defineMarks _ run) (fun _ => .pure _) _), fun sts b' hrun => ?_⟩
    obtain ⟨definitions, b₁, hmarks, hrun⟩ := on_bind_eq_ok hrun
    cases hrun
    intro st hst
    rw [mem_singleton.1 hst]
    refine plain_block fun st hst => ?_
    obtain ⟨st', hst', heq⟩ := mem_filterMap.1 hst
    obtain ⟨run, -, s, t, -, hrun, -⟩ := forall₂_mem_right (on_mapM (keeps_defineMarks _) hmarks) hst'
    rw [heq, defineMarks, on_get_bind] at hrun
    split at hrun
    · cases hrun
    · cases hrun
      exact ⟨rfl, rfl⟩

/-- What is said before a rule defines and calls no lookups, and makes its calls ready. -/
lemma rulePreamble_on (b) (id) : Keeping b ((rulePreamble id).on b).2 ∧
    ∀ sts b', (rulePreamble id).on b = (.ok sts, b') → (∀ st ∈ sts, Plain st) ∧
      (b.Coherent → id < b.rules.size → b.CallsKnown id → b'.CallsReady id) := by
  have free {b'} (kept : Keeping b b') (hbody : ∀ c, (b.rule id).body ≠ .chaining c) (hb : b.Coherent)
      (hid : id < b.rules.size) (hcalls : b.CallsKnown id) : b'.CallsReady id := by
    refine (kept hb).1.callsReady hid ⟨hcalls, fun l hl => ?_⟩
    rw [chained_of_ne hbody] at hl
    cases hl
  rw [rulePreamble, on_get_bind]
  split
  · next c hc =>
    obtain ⟨kept, ready⟩ := chainPreamble_on hc
    rcases hrun : (chainPreamble id c).on b with ⟨e | ⟨⟩, b₁⟩
    · rw [on_bind_error hrun]
      rw [hrun] at kept
      exact ⟨kept, fun sts b' h => by cases h⟩
    · rw [on_bind_ok hrun]
      rw [hrun] at kept
      refine ⟨kept, fun sts b' h => ?_⟩
      cases h
      exact ⟨by simp, fun hb hid hcalls => ⟨(kept hb).1.callsKnown hid hcalls, ready b₁ hrun hb hcalls⟩⟩
  · next a ha =>
    obtain ⟨kept, plain⟩ := attachmentPreamble_on ha
    refine ⟨kept, fun sts b' h => ⟨plain sts b' h, free ?_ (by simp [ha])⟩⟩
    rwa [h] at kept
  · next hchain _ =>
    refine ⟨Std.Refl.refl b, fun sts b' h => ?_⟩
    cases h
    exact ⟨by simp, free (Std.Refl.refl b) hchain⟩

lemma keeps_markClassFor (label) (marks) :
    Keeps Keeping (markClassFor label marks) := by
  unfold markClassFor
  split
  · exact .throw _
  · next marks =>
    intro b
    have named : Keeping b ({ b with markIndex := b.markIndex + 1 }.classFor marks
        (label ++ toString (b.markIndex + 1))).2 := by
      unfold classFor
      split <;> exact .of_same rfl rfl rfl rfl
    exact named

lemma keeps_setMarkClass (i) (flags) (mask) (label)
    (marks) {setClass} (h : ∀ n r, Routine.Kept r (setClass n r)) :
    Keeps Keeping (setMarkClass i flags mask label marks setClass) := by
  refine .bind (.ofExcept _) fun asked => ?_
  split
  · exact .bind (keeps_markClassFor _ _) fun name => .modify fun b => .alterRoutine b i (h name _)
  · exact .pure _

lemma keeps_markClasses (i) (r : Routine) (said : List (List Statement)) : Keeps Keeping (do
    setMarkClass i r.flags 0xFF00 "markAttachmentSet" r.markAttachmentSet fun name r =>
      { r with markAttachmentClass := some name }
    setMarkClass i r.flags 0x10 "markFilteringSet" r.markFilteringSet fun name r =>
      { r with markFilteringClass := some name }
    return said.flatten : Act (List Statement)) :=
  .bind (keeps_setMarkClass _ _ _ _ _ fun _ _ => ⟨rfl, rfl, rfl, .inl rfl⟩) fun _ =>
    .bind (keeps_setMarkClass _ _ _ _ _ fun _ _ => ⟨rfl, rfl, rfl, .inl rfl⟩) fun _ => .pure _

lemma keeps_rulePreamble (id) : Keeps Keeping (rulePreamble id) := fun b => (rulePreamble_on b id).1

lemma keeps_routinePreamble (i) : Keeps Keeping (routinePreamble i) :=
  .bind .get fun _ => .bind (.mapM _ fun id _ => keeps_rulePreamble id) fun _ =>
    .bind .get fun _ => keeps_markClasses _ _ _

lemma routinePreamble_on {sts} (hb : b.Coherent)
    (hrules : ∀ id ∈ b.ruleIds i, id < b.rules.size ∧ b.CallsKnown id)
    (hrun : (routinePreamble i).on b = (.ok sts, b')) :
    (∀ st ∈ sts, Plain st) ∧ ∀ id ∈ b.ruleIds i, b'.CallsReady id := by
  rw [routinePreamble, on_get_bind] at hrun
  obtain ⟨said, b₁, hsaid, hrun⟩ := on_bind_eq_ok hrun
  rw [on_get_bind] at hrun
  have kept := (mapM _ fun id _ => keeps_rulePreamble id).of_on hsaid hb
  have each := Keeping.on_mapM keeps_rulePreamble hb hsaid
  obtain ⟨rest, -⟩ := (keeps_markClasses i (b₁.routine i) said).of_on hrun kept.2
  have flat : sts = said.flatten := by
    obtain ⟨_, _, -, hrun⟩ := on_bind_eq_ok hrun
    obtain ⟨_, _, -, hrun⟩ := on_bind_eq_ok hrun
    cases hrun
    rfl
  constructor
  · intro st hst
    rw [flat] at hst
    obtain ⟨sts', hsts', hst⟩ := mem_flatten.1 hst
    obtain ⟨id, -, -, s, t, -, -, hid, -⟩ := forall₂_mem_right each hsts'
    exact ((rulePreamble_on s id).2 sts' t hid).1 st hst
  · intro id hid
    obtain ⟨hlt, hcalls⟩ := hrules id hid
    obtain ⟨sts', -, -, s, t, before, hs, hrule, after⟩ := forall₂_mem_left each hid
    have hlt' := hlt.trans_le before.rules
    have ready := ((rulePreamble_on s id).2 sts' t hrule).2 hs hlt' (before.callsKnown hlt hcalls)
    obtain ⟨own, -⟩ := (keeps_rulePreamble id).of_on hrule hs
    exact (after.trans rest).callsReady (hlt'.trans_le own.rules) ready

lemma nameRoutine_on (b) (i) : Keeping b ((nameRoutine i).on b).2 ∧
    ∀ b', (nameRoutine i).on b = (.ok (), b') → i < b.routines.size → ¬Unnamed (b'.routine i).name := by
  have numbered : Keeping b (b.gensym "Routine_").2 := .of_same rfl rfl rfl rfl
  have named (h : Unnamed (b.routine i).name) (b')
      (hb' : b' = (b.gensym "Routine_").2.alterRoutine i fun r => { r with name := some (b.gensym "Routine_").1 }) :
      Keeping b b' ∧ (i < b.routines.size → ¬Unnamed (b'.routine i).name) := by
    subst hb'
    refine ⟨Trans.trans numbered (Keeping.alterRoutine _ i ⟨rfl, rfl, rfl, .inr h⟩), fun hi => ?_⟩
    rw [routine_alterRoutine_self (b := (b.gensym "Routine_").2) hi]
    simp [Unnamed, gensym]
  rw [nameRoutine, on_get_bind]
  split
  iterate 2
    · next h =>
      have named := named (by rw [h]; rfl)
      exact ⟨(named _ rfl).1, fun b' hrun => (named b' (by cases hrun; rfl)).2⟩
  · next hnone hempty =>
    refine ⟨Std.Refl.refl b, fun b' hrun _ h => ?_⟩
    cases hrun
    cases hname : (b.routine i).name with
    | none => exact hnone hname
    | some n =>
      rw [hname] at h
      exact hempty (hname.trans (congrArg some h))

lemma keeps_prepare (i) : Keeps Keeping (prepare i) :=
  .bind (fun b => (nameRoutine_on b i).1) fun _ => .bind (keeps_routinePreamble i) fun _ => .bind .get fun _ => .pure _

lemma prepare_on {i : RoutineId} {ids} {sts} (hb : b.Coherent)
    (hi : i < b.routines.size) (hcontent : (b.routine i).content = .rules ids)
    (hrules : ∀ id ∈ ids, id < b.rules.size ∧ b.CallsKnown id) (hrun : (prepare i).on b = (.ok sts, b')) :
    (∀ st ∈ sts, Plain st) ∧ ∃ n, b'.Prepared i n ids := by
  obtain ⟨⟨⟩, b₁, hname, hrun⟩ := on_bind_eq_ok hrun
  obtain ⟨said, b₂, hsaid, hrun⟩ := on_bind_eq_ok hrun
  obtain ⟨kept, hb₁⟩ := of_on (fun b => (nameRoutine_on b i).1) hname hb
  have named := (nameRoutine_on b i).2 b₁ hname hi
  have own : b₁.ruleIds i = ids := ruleIds_rules ((kept.routine i hi).content.trans hcontent)
  have hrules₁ : ∀ id ∈ b₁.ruleIds i, id < b₁.rules.size ∧ b₁.CallsKnown id := by
    rw [own]
    exact kept.allKnown hrules
  obtain ⟨plain, ready⟩ := routinePreamble_on hb₁ hrules₁ hsaid
  obtain ⟨kept', -⟩ := (keeps_routinePreamble i).of_on hsaid hb₁
  have hi₁ := hi.trans_le kept.routines
  rw [own] at ready hrules₁
  cases hrun
  constructor
  · intro st hst
    split at hst
    · cases hst
    · exact plain st hst
  · obtain ⟨n, hn⟩ : ∃ n, (b₁.routine i).name = some n := by
      cases hname : (b₁.routine i).name with
      | none =>
        rw [hname] at named
        exact absurd rfl named
      | some n => exact ⟨n, rfl⟩
    refine ⟨n, hi₁.trans_le kept'.routines, ?_, ?_, ?_, fun id hid => ?_⟩
    · exact (kept'.routine i hi₁).content.trans ((kept.routine i hi).content.trans hcontent)
    · exact ((kept'.routine i hi₁).name.resolve_right named).trans hn
    · rwa [hn] at named
    · exact ⟨(hrules₁ id hid).1.trans_le kept'.rules, ready id hid⟩

/-! ### Statements -/

@[grind ←]
lemma keeps_noteWarnings (rules) : Keeps Keeping (noteWarnings rules) := by
  induction rules with
  | nil => exact .pure _
  | cons r rules ih =>
    refine .bind (.modify fun b => ?_) fun _ => .bind .get fun b => ?_
    · cases ruleWarning? r with
      | none => exact Std.Refl.refl b
      | some w => exact .of_same rfl rfl rfl rfl
    · split
      · exact ih
      · exact .pure _

@[grind ←]
lemma keeps_wholeStatement (i) : Keeps Keeping (wholeStatement i) := by
  refine .bind .get fun b => .bind (.ofExcept _) fun _ => .bind (.ofExcept _) fun _ => ?_
  grind

lemma keeps_routineStatement (fuel) (inFeature) (i) :
    Keeps Keeping (routineStatement fuel inFeature i) := by
  induction fuel generalizing inFeature i with
  | zero => exact .throw _
  | succ fuel ih =>
    refine .bind .get fun b => ?_
    split
    · exact .throw _
    · grind
    · refine .bind (keeping_arrange i) fun parts => ?_
      split
      · exact .bind (.mapM _ fun j _ => ih true j) fun _ => .pure _
      · exact keeps_wholeStatement i

@[grind ←]
lemma keeps_statementOf (inFeature) (i) : Keeps Keeping (statementOf inFeature i) :=
  .bind .get fun _ => keeps_routineStatement _ inFeature i

lemma keeps_lookupOf (i) : Keeps Keeping (lookupOf i) := by
  unfold lookupOf
  grind

@[grind ←]
lemma keeps_callUnder (i) (said) (system) :
    Keeps Keeping (callUnder i said system) := by
  unfold callUnder
  grind

lemma keeps_callStatement (tag) (l) : Keeps Keeping (callStatement tag l) := by
  unfold callStatement
  grind

lemma keeps_featureOf (feature) : Keeps Keeping (featureOf feature) :=
  .bind (.mapM _ fun l _ => keeps_callStatement _ l) fun _ => .pure _

end GlyphRules.Feature
