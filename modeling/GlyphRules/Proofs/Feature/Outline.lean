import GlyphRules.Proofs.Book.UseCounts
import GlyphRules.Proofs.Feature.Parts

/-! What the statements of a book define and call.

A routine in force stands alone, as a lookup of its own, unless it has no rules or is used once. A
feature calls its routines by name, but writes one that is used once and has no languages in full.
`Outline` is what all the statements of a book define and call. -/
namespace GlyphRules
variable {sts : List Statement} {is : List RoutineId} {said said' : String × List Statement}

lemma Book.callees_eq (b : Book) (i) :
    b.callees i = (b.ruleIds i).flatMap fun id => (b.rule id).chained.entries.filterMap Lookup.routine? := by
  unfold callees routineDependencies rulesOf
  rw [List.flatMap_map, List.filterMap_flatMap]
  refine List.flatMap_congr fun id _ => ?_
  rw [dependencies_eq, List.filterMap_map]
  rfl

namespace Feature

open Step List Statement Keeps Book

def standsAlone (b : Book) (i : RoutineId) : Bool := !(b.ruleIds i).isEmpty && (b.routine i).usecount != 1

def inlined (b : Book) (tag : String) (i : RoutineId) : Bool :=
  (tag == "aalt" || (b.routine i).languages.isEmpty) && (b.routine i).usecount == 1

/-! ### One routine -/

section Routine
variable {b b' : Book} {i : RoutineId} {n : String} {ids : List RuleId}

lemma statementOf_whole (hb : b.Coherent) (hi : b.Prepared i n ids)
    (hrun : (statementOf false i).on b = (.ok st, b')) :
    nameOf st = some n ∧ st.defines = [n] ∧ st.calls = b.namesIn ids := by
  rw [statementOf, on_get_bind] at hrun
  generalize levels b = fuel at hrun
  cases fuel with
  | zero => cases hrun
  | succ fuel =>
    rw [routineStatement, on_get_bind, hi.content] at hrun
    obtain ⟨parts, b₁, harrange, hrun⟩ := on_bind_eq_ok hrun
    obtain ⟨kept, -⟩ := (keeping_arrange i).of_on harrange hb
    rw [← kept.namesIn hi.rules]
    split at hrun
    · next heq => cases heq
    · exact wholeStatement_on (kept.prepared hi) hrun

lemma lookupOf_on (hb : b.Coherent) (hi : b.Prepared i n ids)
    (hrun : (lookupOf i).on b = (.ok o, b')) :
    if standsAlone b i then ∃ st, o = some st ∧ st.defines = [n] ∧ st.calls = b.namesIn ids else o = none := by
  rw [lookupOf, on_get_bind] at hrun
  unfold standsAlone
  split at hrun
  · next hnot =>
    cases hrun
    rw [if_neg (by simpa [or_iff_not_imp_left] using hnot)]
  · next halone =>
    obtain ⟨st, b₁, hst, hrun⟩ := on_bind_eq_ok hrun
    cases hrun
    rw [if_pos (by simpa using halone)]
    exact ⟨st, rfl, (statementOf_whole hb hi hst).2⟩

lemma languageLine_plain {last language} (h : languageLine last language = .ok sts) :
    ∀ st ∈ sts, Plain st := by
  unfold languageLine at h
  split at h
  · cases h
    simp
  · split at h
    · cases h
    · cases h
      exact forall_mem_singleton.2 ⟨rfl, rfl⟩

lemma callUnder_on (hb : b.Coherent)
    (hi : b.Prepared i n ids) (hrun : (callUnder i said system).on b = (.ok said', b')) :
    definedNames said'.2 = definedNames said.2 ∧ calledNames said'.2 = calledNames said.2 ++ [n] := by
  obtain ⟨line, hline, hrun⟩ := on_ofExcept_bind hrun
  obtain ⟨st, b₁, hst, hrun⟩ := on_bind_eq_ok hrun
  cases hrun
  have quiet := names_plain (languageLine_plain hline)
  simp only [definedNames_eq, calledNames_eq, flatMap_append, quiet, (statementOf_whole hb hi hst).1]
  simp [defines, calls]

lemma foldlM_callUnder_on {systems : List LanguageSystem} (hb : b.Coherent)
    (hi : b.Prepared i n ids) (hrun : (systems.foldlM (callUnder i) said).on b = (.ok said', b')) :
    definedNames said'.2 = definedNames said.2 ∧
      calledNames said'.2 = calledNames said.2 ++ List.replicate systems.length n := by
  induction systems generalizing b said with
  | nil =>
    cases hrun
    simp
  | cons system systems ih =>
    obtain ⟨said₁, b₁, hfirst, hrun⟩ := on_bind_eq_ok hrun
    obtain ⟨defines, calls⟩ := callUnder_on hb hi hfirst
    obtain ⟨kept, hb₁⟩ := (keeps_callUnder i said system).of_on hfirst hb
    obtain ⟨defines', calls'⟩ := ih hb₁ (kept.prepared hi) hrun
    rw [defines', calls', defines, calls]
    simp [replicate_succ]

lemma isEmpty_of_systems {l : Languages} (h : l.systems? = .ok []) : l.isEmpty = true := by
  cases l with
  | pairs systems =>
    cases h
    rfl
  | text s =>
    simp only [Languages.systems?] at h
    split at h
    · assumption
    · cases h

lemma callStatement_on {name} {st} (hb : b.Coherent)
    (hi : b.Prepared i n ids) (hrun : (callStatement tag (.ref ⟨name, some i⟩)).on b = (.ok st, b')) :
    if inlined b tag i then Writes st n (b.namesIn ids) else st.defines = [] ∧ ∀ m, m ∈ st.calls ↔ m = n := by
  rw [callStatement, on_get_bind] at hrun
  unfold inlined
  dsimp only at hrun
  split at hrun
  · next hplain =>
    rw [hplain, Bool.true_and]
    split at hrun
    · next honce =>
      rw [if_pos honce]
      rw [statementOf, on_get_bind] at hrun
      exact routineStatement_writes hb hi hrun
    · next honce =>
      obtain ⟨whole, b₁, hwhole, hrun⟩ := on_bind_eq_ok hrun
      cases hrun
      rw [if_neg honce, (statementOf_whole hb hi hwhole).1]
      simp [defines, calls]
  · next hplain =>
    rw [if_neg (by simp [hplain])]
    obtain ⟨systems, hsystems, hrun⟩ := on_ofExcept_bind hrun
    obtain ⟨said, b₁, hsaid, hrun⟩ := on_bind_eq_ok hrun
    cases hrun
    obtain ⟨defines, calls⟩ := foldlM_callUnder_on hb hi hsaid
    have some : systems ≠ [] := by
      rintro rfl
      exact hplain (Bool.or_eq_true_iff.2 (.inr (isEmpty_of_systems hsystems)))
    rw [Statement.defines, Statement.calls, defines, calls]
    simp [definedNames, calledNames, some]

end Routine

/-! ### All routines -/

def title (b : Book) (i : RoutineId) : String := (b.routine i).name.getD ""

section Routines
variable {b b' c : Book}

def AllPrepared (b : Book) : Prop := ∀ i ∈ b.order, b.Prepared i (title b i) (b.ruleIds i)

section Kept
variable (h : Kept b b') (hb : AllPrepared b) {i : RoutineId} (hi : i ∈ b.order)
include h hb hi

lemma kept_title : title b' i = title b i := by
  have name := (h.prepared (hb i hi)).name
  rw [title, name]
  rfl

lemma kept_ruleIds : b'.ruleIds i = b.ruleIds i := ruleIds_rules (h.prepared (hb i hi)).content

lemma kept_standsAlone : standsAlone b' i = standsAlone b i := by
  unfold standsAlone
  rw [kept_ruleIds h hb hi, (h.routine i (hb i hi).size).usecount]

lemma kept_inlined (tag) : inlined b' tag i = inlined b tag i := by
  unfold inlined
  rw [(h.routine i (hb i hi).size).usecount, (h.routine i (hb i hi).size).languages]

lemma kept_namesIn : b'.namesIn (b'.ruleIds i) = b.namesIn (b.ruleIds i) := by
  rw [kept_ruleIds h hb hi]
  exact h.namesIn (hb i hi).rules

lemma kept_prepared : b'.Prepared i (title b i) (b.ruleIds i) := h.prepared (hb i hi)

end Kept

lemma AllPrepared.kept (h : AllPrepared b) (hb' : Kept b b') : AllPrepared b' := by
  intro i hi
  rw [hb'.order] at hi
  rw [kept_title hb' h hi, kept_ruleIds hb' h hi]
  exact hb'.prepared (h i hi)

lemma mapM_lookupOf_on (hb : b.Coherent) (hall : AllPrepared b)
    (hc : Kept b c) (his : ∀ i ∈ is, i ∈ b.order) (hrun : (is.mapM lookupOf).on b = (.ok os, b')) :
    Forall₂ (fun i st => st.defines = [title c i] ∧ st.calls = c.namesIn (c.ruleIds i))
      (is.filter (standsAlone c)) (os.filterMap id) := by
  have each : Forall₂ (fun i o => if standsAlone c i then
      ∃ st, o = some st ∧ st.defines = [title c i] ∧ st.calls = c.namesIn (c.ruleIds i) else o = none) is os := by
    refine (Keeping.on_mapM keeps_lookupOf hb hrun).imp ?_
    rintro i o ⟨hi, s, t, kept, hs, ho, -⟩
    have hi := his i hi
    have stands := lookupOf_on hs (kept_prepared kept hall hi) ho
    rwa [kept_standsAlone kept hall hi, kept.namesIn (hall i hi).rules, ← kept_standsAlone hc hall hi,
      ← kept_namesIn hc hall hi, ← kept_title hc hall hi] at stands
  clear hrun his
  induction each with
  | nil => exact .nil
  | cons ho _ ih =>
    split at ho
    · next halone =>
      obtain ⟨st, rfl, hst⟩ := ho
      rw [filter_cons_of_pos halone]
      exact .cons hst ih
    · next halone =>
      subst ho
      rwa [filter_cons_of_neg halone]

def Says (b : Book) (tag : String) (i : RoutineId) (st : Statement) : Prop :=
  if inlined b tag i then Writes st (title b i) (b.namesIn (b.ruleIds i))
  else st.defines = [] ∧ ∀ m, m ∈ st.calls ↔ m = title b i

section
variable {features : List (String × List Lookup)} (hb : b.Coherent) (hall : AllPrepared b) (hc : Kept b c)
  (hrefs : ∀ f ∈ features, ∀ l ∈ f.2, ∃ n i, l = .ref ⟨n, some i⟩ ∧ i ∈ b.order)
  (hrun : (features.mapM featureOf).on b = (.ok sts, b'))
include hb hall hc hrefs hrun

lemma mapM_featureOf_says : Forall₂ (fun f st => ∃ body, st = .feature f.1 body ∧
      Forall₂ (fun l st => ∃ i, l.routine? = some i ∧ Says c f.1 i st) f.2 body) features sts := by
  refine (Keeping.on_mapM keeps_featureOf hb hrun).imp ?_
  rintro f st ⟨hf, s, t, kept, hs, hst, -⟩
  obtain ⟨body, u, hbody, hpure⟩ := on_bind_eq_ok hst
  cases hpure
  refine ⟨body, rfl, ?_⟩
  refine (Keeping.on_mapM (keeps_callStatement f.1) hs hbody).imp ?_
  rintro l st ⟨hl, s₁, t₁, kept₁, hs₁, hst, -⟩
  obtain ⟨n, i, rfl, hi⟩ := hrefs f hf l hl
  have kept' := kept.trans kept₁
  have said := callStatement_on hs₁ (kept_prepared kept' hall hi) hst
  rw [kept_inlined kept' hall hi, kept'.namesIn (hall i hi).rules, ← kept_inlined hc hall hi,
    ← kept_namesIn hc hall hi, ← kept_title hc hall hi] at said
  exact ⟨i, rfl, said⟩

lemma mapM_featureOf_on {us : List (String × RoutineId)}
    (hus : ∀ tag i, (tag, i) ∈ us ↔ ∃ l, (∃ f ∈ features, f.1 = tag ∧ l ∈ f.2) ∧ l.routine? = some i) :
    (∀ m ∈ definedNames sts, ∃ u ∈ us, inlined c u.1 u.2 = true ∧
      (m = title c u.2 ∨ ∃ x, m = title c u.2 ++ "_" ++ x)) ∧
    ∀ m, m ∈ calledNames sts ↔
      ∃ u ∈ us, if inlined c u.1 u.2 then m ∈ c.namesIn (c.ruleIds u.2) else m = title c u.2 := by
  have each := mapM_featureOf_says hb hall hc hrefs hrun
  have calls {tag i st} (h : Says c tag i st) (m) : m ∈ st.calls ↔
      if inlined c tag i then m ∈ c.namesIn (c.ruleIds i) else m = title c i := by
    unfold Says at h
    split at h
    · next hin => rw [if_pos hin, h.calls]
    · next hin => rw [if_neg hin, h.2]
  rw [definedNames_eq, calledNames_eq]
  refine ⟨fun m hm => ?_, fun m => ⟨fun hm => ?_, ?_⟩⟩
  · obtain ⟨st, hst, hm⟩ := mem_flatMap.1 hm
    obtain ⟨f, hf, body, rfl, hbody⟩ := forall₂_mem_right each hst
    rw [defines, definedNames_eq] at hm
    obtain ⟨st, hst, hm⟩ := mem_flatMap.1 hm
    obtain ⟨l, hl, i, hroutine, said⟩ := forall₂_mem_right hbody hst
    unfold Says at said
    split at said
    · next hin => exact ⟨(f.1, i), (hus _ _).2 ⟨l, ⟨f, hf, rfl, hl⟩, hroutine⟩, hin, said.defines m hm⟩
    · rw [said.1] at hm
      cases hm
  · obtain ⟨st, hst, hm⟩ := mem_flatMap.1 hm
    obtain ⟨f, hf, body, rfl, hbody⟩ := forall₂_mem_right each hst
    rw [Statement.calls, calledNames_eq] at hm
    obtain ⟨st, hst, hm⟩ := mem_flatMap.1 hm
    obtain ⟨l, hl, i, hroutine, said⟩ := forall₂_mem_right hbody hst
    exact ⟨(f.1, i), (hus _ _).2 ⟨l, ⟨f, hf, rfl, hl⟩, hroutine⟩, (calls said m).1 hm⟩
  · rintro ⟨⟨tag, i⟩, hu, hm⟩
    obtain ⟨l, ⟨f, hf, rfl, hl⟩, hroutine⟩ := (hus tag i).1 hu
    obtain ⟨st, hst, body, rfl, hbody⟩ := forall₂_mem_left each hf
    obtain ⟨st', hst', i', hroutine', said⟩ := forall₂_mem_left hbody hl
    cases hroutine.symm.trans hroutine'
    refine mem_flatMap.2 ⟨_, hst, ?_⟩
    rw [Statement.calls, calledNames_eq]
    exact mem_flatMap.2 ⟨st', hst', (calls said m).2 hm⟩

end

end Routines

/-! ### Books that are ready -/

section Callable
variable {base b b' : Book} {us : List (String × RoutineId)} (h : Callable base b us)
include h

lemma callsKnown_of_callable {id} (hid : id ∈ b.allRules) : b.CallsKnown id := by
  intro l hl
  obtain ⟨n, j, rfl, hj, -⟩ := h.resolved id hid l hl
  exact ⟨_, j, rfl, h.within j hj⟩

lemma lt_of_callable {id} (hid : id ∈ b.allRules) : id < b.rules.size := by
  obtain ⟨i, hi, hid⟩ := mem_flatMap.1 hid
  obtain ⟨ids, hids, hlt⟩ := h.plain i (h.within i hi)
  rw [ruleIds_rules hids] at hid
  exact hlt id hid

lemma mapM_prepare_on (his : ∀ i, i ∈ is ↔ i ∈ b.order)
    (hrun : (is.mapM prepare).on b = (.ok stss, b')) :
    (∀ st ∈ stss.flatten, Plain st) ∧ AllPrepared b' := by
  have each : Forall₂ (fun i sts => (∀ st ∈ sts, Plain st) ∧ ∃ n ids, b'.Prepared i n ids) is stss := by
    refine (Keeping.on_mapM keeps_prepare h.coherent hrun).imp ?_
    rintro i sts ⟨hi, s, t, kept, hs, hprepare, after⟩
    have hi := (his i).1 hi
    obtain ⟨ids, hids, -⟩ := h.plain i (h.within i hi)
    have mem {id} hid : id ∈ b.allRules := mem_flatMap.2 ⟨i, hi, by rwa [ruleIds_rules hids]⟩
    have known : ∀ id ∈ ids, id < b.rules.size ∧ b.CallsKnown id := fun id hid =>
      ⟨lt_of_callable h (mem hid), callsKnown_of_callable h (mem hid)⟩
    obtain ⟨plain, n, prepared⟩ := prepare_on hs ((h.within i hi).trans_le kept.routines)
      ((kept.routine i (h.within i hi)).content.trans hids) (kept.allKnown known) hprepare
    exact ⟨plain, n, ids, after.prepared prepared⟩
  have kept := ((mapM is fun i _ => keeps_prepare i).of_on hrun h.coherent).1
  constructor
  · intro st hst
    obtain ⟨sts, hsts, hst⟩ := mem_flatten.1 hst
    obtain ⟨i, -, plain, -⟩ := forall₂_mem_right each hsts
    exact plain st hst
  · intro i hi
    rw [kept.order] at hi
    obtain ⟨sts, -, -, n, ids, prepared⟩ := forall₂_mem_left each ((his i).2 hi)
    have name : title b' i = n := by rw [title, prepared.name]; rfl
    rwa [name, ruleIds_rules prepared.content]

variable (hb' : Kept b b') (hall : AllPrepared b') {i : RoutineId} (hi : i ∈ b.order)
include hb' hi

lemma ruleIds_of_callable : b'.ruleIds i = b.ruleIds i := by
  obtain ⟨ids, hids, -⟩ := h.plain i (h.within i hi)
  rw [ruleIds_rules hids]
  exact ruleIds_rules ((hb'.routine i (h.within i hi)).content.trans hids)

lemma callees_of_callable : b'.callees i = b.callees i := by
  rw [callees_eq, callees_eq, ruleIds_of_callable h hb' hi]
  refine flatMap_congr fun id hid => filterMap_of_forall₂ ?_
  have mem : id ∈ b.allRules := mem_flatMap.2 ⟨i, hi, hid⟩
  refine (hb'.rule id (lt_of_callable h mem) (callsKnown_of_callable h mem)).imp ?_
  rintro l l' (rfl | ⟨n, j, rfl, -, rfl, -⟩) <;> rfl

omit hb' hi in
lemma mem_order_of_callable (hi : i ∈ b.order) {j : RoutineId} (hj : j ∈ b.callees i) : j ∈ b.order := by
  rw [callees_eq] at hj
  obtain ⟨id, hid, hj⟩ := mem_flatMap.1 hj
  obtain ⟨l, hl, hroutine⟩ := mem_filterMap.1 hj
  obtain ⟨n, j', rfl, hj', -⟩ := h.resolved id (mem_flatMap.2 ⟨i, hi, hid⟩) l hl
  cases hroutine
  exact hj'

omit hi in
lemma chainCalled_of_callable (j : RoutineId) : b'.ChainCalled j ↔ b.ChainCalled j := by
  unfold ChainCalled
  rw [hb'.order]
  refine exists_congr fun i => and_congr_right fun hi => ?_
  rw [callees_of_callable h hb' hi]

include hall

lemma call_of_callable {id} (hid : id ∈ b'.ruleIds i) {l}
    (hl : l ∈ (b'.rule id).chained.entries) : ∃ j, l.routine? = some j ∧ l.given? = some (title b' j) := by
  have ready := ((hall i (hb'.order ▸ hi)).rules id hid).2
  rw [ruleIds_of_callable h hb' hi] at hid
  have mem : id ∈ b.allRules := mem_flatMap.2 ⟨i, hi, hid⟩
  obtain ⟨l₀, hl₀, htakes⟩ :=
    forall₂_mem_right (hb'.rule id (lt_of_callable h mem) (callsKnown_of_callable h mem)) hl
  obtain ⟨n, j, rfl, hn⟩ := ready.ready l hl
  refine ⟨j, rfl, ?_⟩
  -- Either the call had its name from being resolved, or it took that of its routine.
  rcases htakes with rfl | ⟨n₀, j₀, -, -, heq, -⟩
  · obtain ⟨n', j', heq, hj, hname⟩ := h.resolved id mem _ hl₀
    cases heq
    have own : some n = (b.routine j).name := hname.resolve_left hn
    have kept := (hb'.routine j (h.within j hj)).name.resolve_right (own ▸ hn)
    rw [title, kept, ← own]
    rfl
  · simp only [Lookup.ref.injEq, Reference.mk.injEq, Option.some.injEq] at heq
    obtain ⟨hname, rfl⟩ := heq
    rw [title, ← hname]
    rfl

lemma namesIn_of_callable (m) : m ∈ b'.namesIn (b'.ruleIds i) ↔ ∃ j ∈ b'.callees i, m = title b' j := by
  rw [mem_namesIn]
  constructor
  · rintro ⟨id, hid, hm⟩
    obtain ⟨l, hl, hgiven⟩ := mem_filterMap.1 hm
    obtain ⟨j, hroutine, htitle⟩ := call_of_callable h hb' hall hi hid hl
    refine ⟨j, ?_, Option.some.inj (hgiven.symm.trans htitle)⟩
    rw [callees_eq]
    exact mem_flatMap.2 ⟨id, hid, mem_filterMap.2 ⟨l, hl, hroutine⟩⟩
  · rintro ⟨j, hj, rfl⟩
    rw [callees_eq] at hj
    obtain ⟨id, hid, hj⟩ := mem_flatMap.1 hj
    obtain ⟨l, hl, hroutine⟩ := mem_filterMap.1 hj
    obtain ⟨j', hroutine', htitle⟩ := call_of_callable h hb' hall hi hid hl
    cases hroutine.symm.trans hroutine'
    exact ⟨id, hid, mem_filterMap.2 ⟨l, hl, htitle⟩⟩

end Callable

/-! ### Whole books -/

structure Outline (base b : Book) (us : List (String × RoutineId)) (sts : List Statement) : Prop where
  nodup : b.order.Nodup
  used : ∀ u ∈ us, u.2 ∈ b.order
  callees : ∀ i ∈ b.order, ∀ j ∈ b.callees i, j ∈ b.order
  ruleIds : ∀ i ∈ b.order, b.ruleIds i = base.ruleIds i
  languages : ∀ i ∈ b.order, (b.routine i).languages = (base.routine i).languages
  once : ∀ i ∈ b.order, (b.routine i).usecount = 1 ↔ (us.map (·.2)).count i = 1 ∧ ¬b.ChainCalled i
  /-- Chains call by the names of what they call. -/
  names : ∀ i ∈ b.order, ∀ m, m ∈ b.namesIn (b.ruleIds i) ↔ ∃ j ∈ b.callees i, m = title b j
  /-- Routines that stand alone define their names, those that are written in full these or others that
  begin with them. -/
  defined : ∃ inner, (definedNames sts).Perm ((b.order.filter (standsAlone b)).map (title b) ++ inner) ∧
    ∀ m ∈ inner, ∃ u ∈ us, inlined b u.1 u.2 = true ∧ (m = title b u.2 ∨ ∃ x, m = title b u.2 ++ "_" ++ x)
  called : ∀ m, m ∈ calledNames sts ↔ (∃ i ∈ b.order, standsAlone b i = true ∧ m ∈ b.namesIn (b.ruleIds i)) ∨
    ∃ u ∈ us, if inlined b u.1 u.2 then m ∈ b.namesIn (b.ruleIds u.2) else m = title b u.2

lemma plain_languageSystems (hrun : languageSystems.on b = (.ok sts, b')) :
    (∀ st ∈ sts, Plain st) ∧ ∃ scripts, b' = { b with scripts } := by
  obtain ⟨_, b₁, hoist, hrun⟩ := on_bind_eq_ok hrun
  obtain ⟨scripts, -, hoist⟩ := on_ofExcept_bind hoist
  cases hoist
  rw [on_get_bind] at hrun
  dsimp only at hrun
  split at hrun
  · cases hrun
    exact ⟨by simp, scripts, rfl⟩
  · cases hrun
    refine ⟨fun st hst => ?_, scripts, rfl⟩
    obtain ⟨s, -, hst⟩ := mem_flatMap.1 hst
    obtain ⟨l, -, rfl⟩ := mem_map.1 hst
    exact ⟨rfl, rfl⟩

lemma filterMap_getElem?_range {α : Type} (l : List α) : (List.range l.length).filterMap (l[·]?) = l := by
  have all : (List.range l.length).map (l[·]?) = l.map some := by
    refine ext_getElem (by simp) fun n hn _ => ?_
    have : n < l.length := by simpa using hn
    simp
  calc (List.range l.length).filterMap (l[·]?)
      = ((List.range l.length).map (l[·]?)).filterMap id := by rw [filterMap_map]; rfl
    _ = (l.map some).filterMap id := by rw [all]
    _ = l := by simp

lemma flatMap_of_forall₂
    (h : Forall₂ (fun i st => st.defines = [f i]) is sts) : sts.flatMap defines = is.map f := by
  induction h with
  | nil => rfl
  | cons h _ ih => rw [flatMap_cons, h, ih, map_cons, singleton_append]

/-- **What the statements of a book made of features define and call.** -/
lemma bookStatements_outline {us} {categories}
    (hbase : base.Unwritten) (h : Featured base b us)
    (hrun : (bookStatements categories).on b = (.ok sts, b')) : Outline base b' us sts := by
  obtain ⟨systems, b₀, hsystems, hrun⟩ := on_bind_eq_ok hrun
  obtain ⟨plain, scripts, rfl⟩ := plain_languageSystems hsystems
  rw [on_get_bind] at hrun
  obtain ⟨places, b₂, hplaces, hrun⟩ := on_bind_eq_ok hrun
  rw [on_get_bind] at hrun
  obtain ⟨stss, b₃, hstss, hrun⟩ := on_bind_eq_ok hrun
  rw [on_get_bind] at hrun
  obtain ⟨os, b₄, hos, hrun⟩ := on_bind_eq_ok hrun
  rw [on_get_bind] at hrun
  obtain ⟨features, b₅, hfeatures, hrun⟩ := on_bind_eq_ok hrun
  cases hrun
  have hscripts : Featured base { b with scripts } us :=
    ⟨h.rules, h.order, h.size, h.routine, h.counts, h.keys, h.refs, h.calls⟩
  obtain ⟨callable, hperm⟩ := callable_of_callOrder hbase hscripts hplaces
  have perm : (places.filterMap (b₂.order[·]?)).Perm b₂.order := by
    have := hperm.filterMap (b₂.order[·]?)
    rwa [filterMap_getElem?_range] at this
  have mem (i) : i ∈ places.filterMap (b₂.order[·]?) ↔ i ∈ b₂.order := perm.mem_iff
  obtain ⟨said, hall₃⟩ := mapM_prepare_on callable mem hstss
  obtain ⟨kept₃, coherent₃⟩ := (mapM _ fun i _ => keeps_prepare i).of_on hstss callable.coherent
  obtain ⟨kept₄, coherent₄⟩ := (mapM _ fun i _ => keeps_lookupOf i).of_on hos coherent₃
  obtain ⟨kept₅, -⟩ := (mapM _ fun f _ => keeps_featureOf f).of_on hfeatures coherent₄
  have kept := kept₃.trans (kept₄.trans kept₅)
  have hall₅ := hall₃.kept (kept₄.trans kept₅)
  have order : b'.order = b₂.order := kept.order
  have features₄ : b₄.features = b₂.features := kept₄.features.trans kept₃.features
  have lookups := mapM_lookupOf_on coherent₃ hall₃ (kept₄.trans kept₅) (fun i hi => kept₃.order ▸ (mem i).1 hi) hos
  obtain ⟨inner, calls⟩ := mapM_featureOf_on coherent₄ (hall₃.kept kept₄) kept₅ (fun f hf l hl => by
    rw [features₄] at hf
    rw [kept₄.order, kept₃.order]
    exact callable.refs f.1 l ⟨f, hf, rfl, hl⟩) hfeatures (by rw [features₄]; exact callable.calls)
  have front : ∀ st ∈ systems ++ (if categories then [categoryTable { b with scripts }] else []) ++ stss.flatten ++
      b₃.namedClasses.map classDefinition ++ [.comment ""], Plain st := by
    simp only [mem_append]
    rintro st ((((hst | hst) | hst) | hst) | hst)
    · exact plain st hst
    · split at hst
      · rw [mem_singleton.1 hst]
        exact ⟨rfl, rfl⟩
      · cases hst
    · exact said st hst
    · obtain ⟨x, -, rfl⟩ := mem_map.1 hst
      exact ⟨rfl, rfl⟩
    · rw [mem_singleton.1 hst]
      exact ⟨rfl, rfl⟩
  rw [append_assoc]
  refine ⟨order ▸ callable.nodup, fun u hu => ?_, fun i hi j hj => ?_, fun i hi => ?_, fun i hi => ?_,
    fun i hi => ?_, fun i hi m => ?_, ⟨definedNames features, ?_, inner⟩, fun m => ?_⟩
  · obtain ⟨l, hl, hroutine⟩ := (callable.calls u.1 u.2).1 hu
    obtain ⟨n, i, rfl, hi⟩ := callable.refs u.1 l hl
    cases hroutine
    exact order ▸ hi
  · rw [order] at hi ⊢
    exact mem_order_of_callable callable hi (callees_of_callable callable kept hi ▸ hj)
  · rw [order] at hi
    exact (ruleIds_of_callable callable kept hi).trans (callable.ruleIds i)
  · rw [order] at hi
    exact (kept.routine i (callable.within i hi)).languages.trans (callable.languages i)
  · rw [order] at hi
    rw [(kept.routine i (callable.within i hi)).usecount, chainCalled_of_callable callable kept]
    exact callable.once i hi
  · exact namesIn_of_callable callable kept hall₅ (order ▸ hi) m
  · rw [definedNames_eq, flatMap_append, (names_plain front).1, nil_append, flatMap_append,
      ← definedNames_eq features, order]
    refine Perm.append_right _ ?_
    rw [flatMap_of_forall₂ (lookups.imp fun _ _ h => h.1)]
    exact (perm.filter _).map _
  · rw [calledNames_eq, flatMap_append, (names_plain front).2, nil_append, flatMap_append,
      mem_append, ← calledNames_eq features, calls, order]
    refine or_congr_left ⟨fun hm => ?_, ?_⟩
    · obtain ⟨st, hst, hm⟩ := mem_flatMap.1 hm
      obtain ⟨i, hi, -, heq⟩ := forall₂_mem_right lookups hst
      obtain ⟨hi, halone⟩ := mem_filter.1 hi
      exact ⟨i, (mem i).1 hi, halone, heq ▸ hm⟩
    · rintro ⟨i, hi, halone, hm⟩
      obtain ⟨st, hst, -, heq⟩ := forall₂_mem_left lookups (mem_filter.2 ⟨(mem i).2 hi, halone⟩)
      exact mem_flatMap.2 ⟨st, hst, heq ▸ hm⟩

end Feature
end GlyphRules
