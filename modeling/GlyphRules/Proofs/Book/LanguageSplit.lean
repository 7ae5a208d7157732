import GlyphRules.Proofs.Book.CallsByName

/-! Splitting all routines by language.

The run goes through the routines in force and the copies that it puts behind them. A plain routine
keeps the rules that speak as its first one does; the others go to copies (`Parted`). An extension
cannot be divided, and has the rules that its routines have kept so far (`Book.Settles`).
`Act.forRoutines_splitByLanguage` says that the run ends exactly when every extension is found to
speak of one list of languages, and what it leaves then. -/
namespace GlyphRules

open Step List Rule Book Act

variable {b b' : Book} {i j : RoutineId} {after before copies : List RoutineId}

/-! ### What rules speak of -/

def Book.speech (b : Book) (id : RuleId) : Languages := (b.rule id).languages.getD (.pairs [])

/-- The rules of a routine speak of the same languages. -/
def Book.OneSpeech (b : Book) (j : RoutineId) : Prop :=
  ∀ id ∈ b.ruleIds j, ∀ id' ∈ b.ruleIds j, b.speech id = b.speech id'
deriving Decidable

def Act.splitByLanguage (i : RoutineId) : Act Unit := do
  if ((← get).rulesOf i).any Rule.hasLanguages then
    let _ ← partition i fun _ r => .ok (r.languages.getD (.pairs []))

def Book.Speaks (b : Book) (j : RoutineId) : Prop := ∃ id ∈ b.ruleIds j, (b.rule id).hasLanguages = true

lemma Book.speaks_iff : b.Speaks j ↔ (b.rulesOf j).any Rule.hasLanguages = true := by
  unfold Speaks rulesOf
  simp

def Book.Listing (b : Book) : Prop := ∀ id ∈ b.allRules, ∃ ls, b.speech id = .pairs ls

/-- Where no rule names a language, all speak alike. -/
lemma Book.Listing.oneSpeech (h : b.Listing) (hj : j ∈ b.order)
    (hnone : (b.rulesOf j).any hasLanguages = false) : b.OneSpeech j := by
  have empty (id) (hid : id ∈ b.ruleIds j) : b.speech id = .pairs [] := by
    obtain ⟨ls, hls⟩ := h id (mem_allRules.2 ⟨j, hj, hid⟩)
    have hsilent : (b.rule id).hasLanguages = false := by
      rw [any_eq_false] at hnone
      simpa using hnone (b.rule id) (mem_map_of_mem hid)
    unfold speech at hls ⊢
    unfold hasLanguages at hsilent
    cases hlanguages : (b.rule id).languages with
    | none => rfl
    | some l =>
      rw [hlanguages] at hls hsilent
      obtain rfl := hls
      cases ls with
      | nil => rfl
      | cons => cases hsilent
  intro id hid id' hid'
  rw [empty id hid, empty id' hid']

/-! ### What is kept of a routine -/

/-- The book when a plain routine has kept only the rules that speak as its first one does. -/
def Book.settle (b : Book) (i : RoutineId) : Book :=
  b.setRules i ((pieces b.speech (b.ruleIds i)).headD [])

/-- Going through these routines, every extension is found to speak of one list of languages. -/
def Book.Settles (b : Book) : List RoutineId → Prop
  | [] => True
  | i :: rest => (b.IsExtension i → b.OneSpeech i) ∧ (b.settle i).Settles rest

namespace Book
variable {c : Book}

lemma size_settle (b : Book) (i) : (b.settle i).routines.size = b.routines.size :=
  b.size_alterRoutine i _

lemma content_settle (b : Book) (i j) : ((b.settle i).routine j).content =
    if j = i then ((b.routine i).withRules ((pieces b.speech (b.ruleIds i)).headD [])).content
    else (b.routine j).content := by
  split
  · next hj =>
    subst hj
    rcases Nat.lt_or_ge j b.routines.size with hlt | hge
    · exact congrArg (·.content) (routine_alterRoutine_self hlt _)
    · have hnone : b.routine j = {} := routine_of_size_le hge
      have hids : b.ruleIds j = [] := ruleIds_rules (by rw [hnone])
      rw [routine_of_size_le (by rwa [size_settle]), hids, hnone]
      rfl
  · next hj => exact congrArg (·.content) (routine_alterRoutine_ne b hj _)

lemma extension_settle :
    ((b.settle i).routine j).content = .extension rs ↔ (b.routine j).content = .extension rs := by
  rw [content_settle]
  split
  · next hj =>
    subst hj
    cases hcontent : (b.routine j).content with
    | rules ids => simp [content_withRules hcontent]
    | extension rs' | missing => rw [withRules_of_ne (by simp [hcontent]), hcontent]
  · rfl

/-- A routine that speaks of one list of languages keeps all its rules. -/
lemma content_settle_of_oneSpeech (h : b.OneSpeech i) (j) :
    ((b.settle i).routine j).content = (b.routine j).content := by
  rw [content_settle]
  split
  · next hj =>
    subst hj
    cases hcontent : (b.routine j).content with
    | rules ids =>
      have hids := ruleIds_rules hcontent
      rw [content_withRules hcontent]
      by_cases hne : ids = []
      · rw [hids, hne]
        rfl
      · rw [pieces_of_eq (hids ▸ hne) h, hids]
        rfl
    | extension rs | missing => rw [withRules_of_ne (by simp [hcontent]), hcontent]
  · rfl

lemma layered_settle (h : b.Layered rank) (i) : (b.settle i).Layered rank := by
  refine ⟨fun j => size_settle b i ▸ h.1 j, fun j rs hrs r hr => ?_⟩
  rw [size_settle]
  exact h.2 j rs (extension_settle.1 hrs) r hr

lemma ruleIds_of_contents (hc : c.Layered rank) (hsize : c.routines.size ≤ b.routines.size)
    (h : ∀ j < c.routines.size, (b.routine j).content = (c.routine j).content) (hj : j < c.routines.size) :
    b.ruleIds j = c.ruleIds j := by
  have within fuel j (hj : j < c.routines.size) :
      b.ruleIdsWithin fuel j = c.ruleIdsWithin fuel j := by
    induction fuel generalizing j with
    | zero => rfl
    | succ fuel ih =>
      unfold ruleIdsWithin
      rw [h j hj]
      cases hcontent : (c.routine j).content with
      | rules ids => rfl
      | missing => rfl
      | extension rs => exact flatMap_congr fun r hr => ih r (hc.2 j rs hcontent r hr).1
  rw [hc.ruleIds_eq (Nat.lt_succ_of_le (Nat.le_trans (hc.1 j) hsize))]
  exact within _ j hj

end Book

/-! ### One visit -/

lemma Split.rule_eq {all} (h : Split b b' i groups all) (id) :
    b'.rule id = { b.rule id with body := (b'.rule id).body } := by
  have once f (r : Rule) : r.mapCalls f = { r with body := (r.mapCalls f).body } := by
    unfold mapCalls
    split <;> rfl
  have kept f k r :
      (mapCalls f)^[k] r = { r with body := ((mapCalls f)^[k] r).body } := by
    induction k generalizing r with
    | zero => rfl
    | succ k ih =>
      rw [Function.iterate_succ_apply, ih, once]
  rw [h.rule]
  exact kept _ _ _

/-- Features hold references to routines in force. -/
def Book.Referring (b : Book) : Prop :=
  ∀ f ∈ b.features, ∀ l ∈ f.2, ∃ name, ∃ j ∈ b.order, l = .ref ⟨name, some j⟩

def Book.called (b : Book) : List (String × List (Option RoutineId)) :=
  b.features.map fun f => (f.1, f.2.map Lookup.routine?)

/-- What a visit does to the routine in the middle: what was there settles, and the copies stand
behind the routine and are called with it. The copies of a plain routine speak of one list of
languages each. A mixed extension is followed by another one with the same rules. -/
structure Parted (b b' : Book) (before : List RoutineId) (i : RoutineId) (copies after : List RoutineId) :
    Prop where
  tidy : Tidy b'
  order : b'.order = before ++ i :: copies ++ after
  size : b.routines.size ≤ b'.routines.size
  content : ∀ j < b.routines.size, (b'.routine j).content = ((b.settle i).routine j).content
  languages : ∀ j < b.routines.size, (b'.routine j).languages = (b.routine j).languages
  rule : ∀ id, b'.rule id = { b.rule id with body := (b'.rule id).body }
  rules : b'.allRules ⊆ b.allRules
  subset : ∀ j < b.routines.size, b'.ruleIds j ⊆ b.ruleIds j
  fresh : ∀ j ∈ copies, b.routines.size ≤ j ∧ (b'.routine j).languages = (b.routine i).languages
  single : b.OneSpeech i → copies = []
  plain : ¬b.IsExtension i → ∀ j ∈ i :: copies, ¬b'.IsExtension j ∧ b'.OneSpeech j
  extension : ¬b.OneSpeech i → b.IsExtension i →
    ∃ j rest, copies = j :: rest ∧ b'.IsExtension j ∧ b'.ruleIds j = b.ruleIds i
  called : b'.called = b.called.map fun f =>
    (f.1, f.2.flatMap fun d => if d = some i then (i :: copies).map some else [d])
  referring : b.Referring → b'.Referring
  named : b.Speaks i → b'.Named i
  others : ∀ j < b.routines.size, j ≠ i → b.Named j → b'.Named j
  calls : b.OneSpeech i → (b.Speaks i → b.Named i) →
    b'.features = b.features ∧ ∀ id ∈ b.allRules, b'.rule id = b.rule id

lemma called_singleton (b : Book) (i) : (b.called.map fun f =>
    (f.1, f.2.flatMap fun d => if d = some i then [i].map some else [d])) = b.called := by
  refine (map_congr_left fun f _ => ?_).trans (map_id b.called)
  refine Prod.ext rfl ((flatMap_congr fun d _ => ?_).trans (flatMap_singleton' f.2))
  split
  · next hd => rw [hd, map_singleton]
  · rfl

lemma Parted.speech (h : Parted b b' before i copies after) (id) : b'.speech id = b.speech id := by
  unfold Book.speech
  rw [h.rule]

lemma Parted.refl (h : Tidy b) (horder : b.order = before ++ i :: after) (hone : b.OneSpeech i)
    (hsilent : ¬b.Speaks i) :
    Parted b b before i [] after where
  tidy := h
  order := by simpa using horder
  size := Nat.le_refl _
  content j _ := (content_settle_of_oneSpeech hone j).symm
  languages _ _ := rfl
  rule _ := rfl
  rules _ h := h
  subset _ _ _ h := h
  fresh _ hj := by cases hj
  single _ := rfl
  plain hplain j hj := by
    obtain rfl := mem_singleton.1 hj
    exact ⟨hplain, hone⟩
  extension hmixed := absurd hone hmixed
  called := (called_singleton b i).symm
  referring h := h
  named hspeaks := absurd hspeaks hsilent
  others _ _ _ h := h
  calls _ _ := ⟨rfl, fun _ _ => rfl⟩

namespace Split
variable {groups : List (List RuleId)} {all : List RoutineId}

section
variable (h : Split b b' i groups all)
include h

lemma called : b'.called = b.called.map fun f =>
    (f.1, f.2.flatMap fun d => if d = some i then all.map some else [d]) := by
  unfold Book.called
  rw [h.features, map_map, map_map]
  exact map_congr_left fun f _ => Prod.ext rfl (map_routine?_callEach _ i all f.2)

lemma referring (hi : i ∈ b.order) (hb : b.Referring) : b'.Referring := by
  intro f hf l hl
  rw [h.features] at hf
  obtain ⟨f₀, hf₀, rfl⟩ := mem_map.1 hf
  obtain ⟨l₀, hl₀, hl⟩ := mem_flatMap.1 hl
  obtain ⟨name, j, hj, rfl⟩ := hb f₀ hf₀ l₀ hl₀
  unfold callEach at hl
  split at hl
  · obtain ⟨k, hk, rfl⟩ := mem_map.1 hl
    refine ⟨_, k, ?_, rfl⟩
    rw [h.order]
    exact mem_flatMap.2 ⟨i, hi, by rwa [if_pos rfl]⟩
  · next hne =>
    obtain rfl := mem_singleton.1 hl
    have hne : j ≠ i := fun h => hne (congrArg some h)
    refine ⟨name, j, ?_, rfl⟩
    rw [h.order]
    exact mem_flatMap.2 ⟨j, hj, by simp [hne]⟩

lemma languages (hj : j ∈ all) : (b'.routine j).languages = (b.routine i).languages := by
  obtain ⟨g, -, hg⟩ := h.fields hj
  have same : ((b.routine i).withRules g).languages = (b.routine i).languages := by
    unfold Routine.withRules
    split <;> rfl
  exact (congrArg (·.languages) hg).trans same

end

lemma parted (hb : Tidy b) (h : Split b b' i (pieces b.speech (b.ruleIds i)) (i :: copies)) (hne : b.ruleIds i ≠ [])
    (horder : b.order = before ++ i :: after) (hspeaks : b.Speaks i) : Parted b b' before i copies after := by
  obtain ⟨rank, layered⟩ := hb.layered
  have hi : i ∈ b.order := by simp [horder]
  have hcopies : copies = List.range' b.routines.size ((pieces b.speech (b.ruleIds i)).length - 1) :=
    (List.cons.inj h.all_eq).2
  have speech (id) : b'.speech id = b.speech id := by
    unfold speech
    rw [h.rule_eq]
  have subset := h.allRules_subset hb hi
  constructor
  case tidy => exact h.tidy hb hi
  case order => exact h.order_eq hb.nodup horder
  case size =>
    rw [h.size]
    exact Nat.le_add_right _ _
  case content =>
    intro j hj
    rw [content_settle]
    split
    · next hji =>
      subst hji
      obtain ⟨g, hg, hcontent⟩ := h.routine_self
      rw [hcontent, headD_eq_head?_getD, hg]
      rfl
    · next hji => exact h.content_other (h.not_mem_all hj hji)
  case languages =>
    intro j hj
    by_cases hji : j = i
    · rw [h.languages (hji ▸ mem_cons_self ..), hji]
    · exact congrArg (·.languages) (h.others j (h.not_mem_all hj hji))
  case rule => exact h.rule_eq
  case rules => exact subset
  case subset => exact fun j hj => (h.ruleIds_old layered hj).1.subset
  case fresh =>
    intro j hj
    refine ⟨?_, h.languages (.tail _ hj)⟩
    rw [hcopies, mem_range'_1] at hj
    exact hj.1
  case single =>
    intro hone
    rwa [pieces_of_eq hne hone] at hcopies
  case plain =>
    intro hplain j hj
    obtain ⟨ids, hcontent⟩ := content_of_not_isExtension hplain hne
    obtain ⟨g, hg, hg'⟩ := h.content_rules hcontent hj
    refine ⟨fun hext => hplain ((h.isExtension_copy hj).1 hext), fun id hid id' hid' => ?_⟩
    rw [ruleIds_rules hg'] at hid hid'
    rw [speech, speech]
    exact ((mem_piece hg).2 id hid).2 id' hid'
  case extension =>
    intro hmixed hext
    unfold OneSpeech at hmixed
    push Not at hmixed
    obtain ⟨id, hid, id', hid', hne⟩ := hmixed
    exact h.next_extension hb hi hext hid hid' hne
  case called => exact h.called
  case referring => exact h.referring hi
  case named => exact fun _ => h.named subset
  case others => exact fun j hj hne => h.named_of_ne subset hj hne
  case calls =>
    intro hone hnamed
    rw [pieces_of_eq hne hone] at hcopies
    subst hcopies
    exact h.calls_of_named (hnamed hspeaks)

end Split

/-- A visit finds nothing to visit, or the routine at its place is split. -/
lemma Act.visit_splitByLanguage (h : Tidy b) (hlisting : b.Listing) (n) :
    b.order.length ≤ n ∧ (visit splitByLanguage n).on b = (.ok none, b) ∨
      ∃ before i after copies b', before.length = n ∧ b.order = before ++ i :: after ∧
        (visit splitByLanguage n).on b = (.ok (some (n + 1)), b') ∧
        Parted b b' before i copies after := by
  rcases visit_on splitByLanguage b n with hend | ⟨before, i, after, hlength, horder, visit⟩
  · exact .inl hend
  · refine .inr ⟨before, i, after, ?_⟩
    have hmem : i ∈ b.order := by simp [horder]
    by_cases hnone : (b.rulesOf i).any hasLanguages = false
    · have hsilent : ¬b.Speaks i := by simp [speaks_iff, hnone]
      have hrun : (splitByLanguage i).on b = (.ok (), b) := by
        rw [splitByLanguage, on_get_bind, hnone]
        rfl
      exact ⟨[], b, hlength, horder, visit hrun, .refl h horder (hlisting.oneSpeech hmem hnone) hsilent⟩
    · have hany : (b.rulesOf i).any hasLanguages = true := by simpa using hnone
      have hne : b.ruleIds i ≠ [] := by
        intro hempty
        rw [rulesOf, hempty] at hany
        cases hany
      obtain ⟨all, b', hpartition, hsplit⟩ := partition_on (fun _ r => .ok (r.languages.getD (.pairs [])))
        b.speech (h.splittable hmem hne) fun _ _ _ _ => rfl
      have hrun : (splitByLanguage i).on b = (.ok (), b') := by
        rw [splitByLanguage, on_get_bind, hany, if_pos rfl, on_bind_ok hpartition]
        rfl
      have hall := hsplit.all_eq
      rw [hall] at hsplit
      exact ⟨_, b', hlength, horder, visit hrun, hsplit.parted h hne horder (speaks_iff.2 hany)⟩

namespace Parted

section
variable (h : Parted b b' before i copies after)
include h

/-- A routine that speaks of one list of languages goes on doing so. -/
lemma oneSpeech (hj : j < b.routines.size) (hone : b.OneSpeech j) : b'.OneSpeech j := by
  intro id hid id' hid'
  rw [h.speech, h.speech]
  exact hone id (h.subset j hj hid) id' (h.subset j hj hid')

lemma listing (hb : b.Listing) : b'.Listing := by
  intro id hid
  rw [h.speech]
  exact hb id (h.rules hid)

/-- A routine without languages gets none. -/
lemma speaks (hj : j < b.routines.size) (hspeaks : b'.Speaks j) : b.Speaks j := by
  obtain ⟨id, hid, hlanguages⟩ := hspeaks
  refine ⟨id, h.subset j hj hid, ?_⟩
  rwa [h.rule] at hlanguages

/-- A visited routine is called by its name, and what was visited before stays so. -/
lemma named_of_speaks (hj : j < b.routines.size)
    (hnamed : j ≠ i → b.Speaks j → b.Named j) (hspeaks : b'.Speaks j) : b'.Named j := by
  by_cases hji : j = i
  · subst hji
    exact h.named (h.speaks hj hspeaks)
  · exact h.others j hj hji (hnamed hji (h.speaks hj hspeaks))

end

end Parted

/-! ### Runs -/

/-- Nothing was split: the same routines are in force, with the same rules and languages, and are
called by the same features. -/
structure Unsplit (b b' : Book) : Prop where
  order : b'.order = b.order
  ruleIds : ∀ j ∈ b.order, b'.ruleIds j = b.ruleIds j
  languages : ∀ j ∈ b.order, (b'.routine j).languages = (b.routine j).languages
  called : b'.called = b.called

lemma Unsplit.refl (b) : Unsplit b b := ⟨rfl, fun _ _ => rfl, fun _ _ => rfl, rfl⟩

lemma Unsplit.allRules (h : Unsplit b b') : b'.allRules = b.allRules := by
  rw [Book.allRules, h.order]
  exact flatMap_congr h.ruleIds

lemma Unsplit.trans {b s b'} (h : Unsplit b s) (h' : Unsplit s b') : Unsplit b b' where
  order := h'.order.trans h.order
  ruleIds j hj := (h'.ruleIds j (h.order ▸ hj)).trans (h.ruleIds j hj)
  languages j hj := (h'.languages j (h.order ▸ hj)).trans (h.languages j hj)
  called := h'.called.trans h.called

/-- A visit of a routine that speaks of one list of languages splits nothing. -/
lemma Parted.unsplit (hb : Tidy b) (horder : b.order = before ++ i :: after) (h : Parted b b' before i copies after)
    (hone : b.OneSpeech i) : Unsplit b b' := by
  obtain ⟨rank, layered⟩ := hb.layered
  obtain rfl := h.single hone
  constructor
  case order =>
    rw [h.order, horder]
    simp
  case ruleIds =>
    intro j hj
    refine ruleIds_of_contents layered h.size (fun k hk => ?_) (hb.within j hj)
    rw [h.content k hk, content_settle_of_oneSpeech hone]
  case languages => exact fun j hj => h.languages j (hb.within j hj)
  case called => exact h.called.trans (called_singleton b i)

/-- All routines were split by language: each speaks of one list of languages, and besides what they
call the rules are as they were. Where all did so before, nothing was split. -/
structure Voiced (b b' : Book) : Prop where
  tidy : Tidy b'
  oneSpeech : ∀ j ∈ b'.order, b'.OneSpeech j
  rule : ∀ id, b'.rule id = { b.rule id with body := (b'.rule id).body }
  rules : b'.allRules ⊆ b.allRules
  languages : ∀ j ∈ b'.order, ∃ k ∈ b.order, (b'.routine j).languages = (b.routine k).languages
  tags : b'.features.map (·.1) = b.features.map (·.1)
  referring : b.Referring → b'.Referring
  named : ∀ j ∈ b'.order, b'.Speaks j → b'.Named j
  unsplit : (∀ j ∈ b.order, b.OneSpeech j) → Unsplit b b'
  calls : (∀ j ∈ b.order, b.OneSpeech j) → (∀ j ∈ b.order, b.Speaks j → b.Named j) →
    b'.features = b.features ∧ ∀ id ∈ b.allRules, b'.rule id = b.rule id

lemma Voiced.speech_eq (h : Voiced b b') (id) : b'.speech id = b.speech id := by
  unfold speech
  rw [h.rule]

lemma Voiced.refl (h : Tidy b) (hone : ∀ j ∈ b.order, b.OneSpeech j)
    (hnamed : ∀ j ∈ b.order, b.Speaks j → b.Named j) : Voiced b b where
  tidy := h
  oneSpeech := hone
  rule _ := rfl
  rules _ h := h
  languages j hj := ⟨j, hj, rfl⟩
  tags := rfl
  referring h := h
  named := hnamed
  unsplit _ := .refl b
  calls _ _ := ⟨rfl, fun _ _ => rfl⟩

lemma Book.map_fst_called (b : Book) : b.called.map (·.1) = b.features.map (·.1) := by
  rw [called, map_map]
  rfl

lemma Parted.voiced {b s b'} (hb : Tidy b) (horder : b.order = before ++ i :: after)
    (h : Parted b s before i copies after) (hs : Voiced s b') :
    Voiced b b' where
  tidy := hs.tidy
  oneSpeech := hs.oneSpeech
  rule id := by
    rw [hs.rule, h.rule]
  rules := fun _ hid => h.rules (hs.rules hid)
  languages j hj := by
    obtain ⟨k, hk, heq⟩ := hs.languages j hj
    have hi : i ∈ b.order := by simp [horder]
    by_cases hold : k ∈ b.order
    · exact ⟨k, hold, heq.trans (h.languages k (hb.within k hold))⟩
    · refine ⟨i, hi, heq.trans (h.fresh k ?_).2⟩
      rw [horder] at hold
      rw [h.order] at hk
      simp only [mem_append, mem_cons] at hold hk
      tauto
  tags := by
    rw [hs.tags, ← map_fst_called, ← map_fst_called, h.called, map_map]
    rfl
  referring hb := hs.referring (h.referring hb)
  named := hs.named
  unsplit hone := by
    have first := h.unsplit hb horder (hone i (by simp [horder]))
    refine first.trans (hs.unsplit fun j hj => ?_)
    have hj : j ∈ b.order := first.order ▸ hj
    exact h.oneSpeech (hb.within j hj) (hone j hj)
  calls hone hnamed := by
    have hi : i ∈ b.order := by simp [horder]
    have first := h.unsplit hb horder (hone i hi)
    have allRules : s.allRules = b.allRules := first.allRules
    obtain ⟨features, rules⟩ := h.calls (hone i hi) (hnamed i hi)
    obtain ⟨features', rules'⟩ := hs.calls
      (fun j hj => h.oneSpeech (hb.within j (first.order ▸ hj)) (hone j (first.order ▸ hj)))
      fun j hj => h.named_of_speaks (hb.within j (first.order ▸ hj)) fun _ => hnamed j (first.order ▸ hj)
    exact ⟨features'.trans features, fun id hid => (rules' id (allRules ▸ hid)).trans (rules id hid)⟩

/-- Where a run stands: it has visited the first routines, the next are copies made on the way, and
the last are still as they were. What was there looks as if the visited routines had settled. -/
structure Standing (c s : Book) (done fresh todo : List RoutineId) : Prop where
  tidy : Tidy s
  listing : s.Listing
  order : s.order = done ++ (fresh ++ todo)
  layered : ∃ rank, c.Layered rank
  size : c.routines.size ≤ s.routines.size
  content : ∀ j < c.routines.size, (s.routine j).content = (c.routine j).content
  speech : s.speech = c.speech
  named : ∀ j ∈ done, s.Speaks j → s.Named j
  done : ∀ j ∈ done, s.OneSpeech j
  fresh : ∀ j ∈ fresh, c.routines.size ≤ j ∧ ¬s.IsExtension j ∧ s.OneSpeech j
  todo : ∀ j ∈ todo, j < c.routines.size

namespace Standing
variable {c s t : Book} {done fresh todo : List RoutineId}

section
variable (h : Standing c s done fresh todo) (hj : j < c.routines.size)
include h hj

lemma ruleIds : s.ruleIds j = c.ruleIds j := by
  obtain ⟨rank, layered⟩ := h.layered
  exact ruleIds_of_contents layered h.size h.content hj

lemma oneSpeech_iff : s.OneSpeech j ↔ c.OneSpeech j := by
  unfold OneSpeech
  rw [h.ruleIds hj, h.speech]

lemma isExtension_iff : s.IsExtension j ↔ c.IsExtension j := by
  unfold IsExtension
  rw [h.content j hj]

end

/-- What was visited stays called by its name. -/
lemma named_next (h : Standing c s done fresh todo) (hnext : fresh ++ todo = i :: after)
    (ht : Parted s t done i copies after) : ∀ j ∈ done ++ [i], t.Speaks j → t.Named j := by
  intro j hj
  refine ht.named_of_speaks (h.tidy.within j ?_) fun hne => h.named j ?_
  · rw [h.order, hnext]
    simp only [mem_append, mem_cons] at hj ⊢
    tauto
  · exact (mem_append.1 hj).resolve_right fun hj => hne (mem_singleton.1 hj)

lemma next_fresh (h : Standing c s done (i :: fresh) todo) (ht : Parted s t done i copies (fresh ++ todo)) :
    Standing c t (done ++ [i]) fresh todo := by
  obtain ⟨-, -, hone⟩ := h.fresh i (.head _)
  obtain rfl := ht.single hone
  have within (j) (hj : j ∈ done ++ i :: fresh) : j < s.routines.size := by
    refine h.tidy.within j ?_
    rw [h.order]
    simp only [mem_append] at hj ⊢
    tauto
  have content (j) (hj : j < s.routines.size) : (t.routine j).content = (s.routine j).content := by
    rw [ht.content j hj, content_settle_of_oneSpeech hone]
  constructor
  case tidy => exact ht.tidy
  case listing => exact ht.listing h.listing
  case order => simpa using ht.order
  case layered => exact h.layered
  case size => exact Nat.le_trans h.size ht.size
  case content => exact fun j hj => (content j (Nat.lt_of_lt_of_le hj h.size)).trans (h.content j hj)
  case speech => exact (funext ht.speech).trans h.speech
  case done =>
    intro j hj
    refine ht.oneSpeech (within j (by simp only [mem_append, mem_cons] at hj ⊢; tauto)) ?_
    rcases mem_append.1 hj with hj | hj
    · exact h.done j hj
    · exact mem_singleton.1 hj ▸ hone
  case named => exact h.named_next rfl ht
  case fresh =>
    intro j hj
    obtain ⟨hsize, hplain, hj'⟩ := h.fresh j (.tail _ hj)
    have hlt := within j (by simp [hj])
    refine ⟨hsize, ?_, ht.oneSpeech hlt hj'⟩
    unfold IsExtension
    rwa [content j hlt]
  case todo => exact h.todo

/-- The visit of a routine that was there, unless it is a mixed extension. -/
lemma next_old (h : Standing c s done [] (i :: todo)) (hi : c.IsExtension i → c.OneSpeech i)
    (ht : Parted s t done i copies todo) : Standing (c.settle i) t (done ++ [i]) copies todo := by
  obtain ⟨rank, layered⟩ := h.layered
  have hlt := h.todo i (.head _)
  have hext : s.IsExtension i → s.OneSpeech i := by
    rwa [h.isExtension_iff hlt, h.oneSpeech_iff hlt]
  constructor
  case tidy => exact ht.tidy
  case listing => exact ht.listing h.listing
  case order => simpa using ht.order
  case layered => exact ⟨rank, layered_settle layered i⟩
  case size =>
    rw [size_settle]
    exact Nat.le_trans h.size ht.size
  case content =>
    intro j hj
    rw [size_settle] at hj
    rw [ht.content j (Nat.lt_of_lt_of_le hj h.size), content_settle, content_settle, h.ruleIds hlt, h.speech]
    split
    · have hr := h.content i hlt
      unfold Routine.withRules
      cases hcontent : (c.routine i).content <;> simp [hr, hcontent]
    · exact h.content j hj
  case speech => exact (funext ht.speech).trans h.speech
  case done =>
    intro j hj
    rcases mem_append.1 hj with hj | hj
    · refine ht.oneSpeech (h.tidy.within j ?_) (h.done j hj)
      rw [h.order]
      exact mem_append_left _ hj
    · obtain rfl := mem_singleton.1 hj
      by_cases hplain : s.IsExtension j
      · exact ht.oneSpeech (Nat.lt_of_lt_of_le hlt h.size) (hext hplain)
      · exact (ht.plain hplain j (.head _)).2
  case named => exact h.named_next rfl ht
  case fresh =>
    intro j hj
    rw [size_settle]
    refine ⟨Nat.le_trans h.size (ht.fresh j hj).1, ?_⟩
    by_cases hplain : s.IsExtension i
    · rw [ht.single (hext hplain)] at hj
      cases hj
    · exact ht.plain hplain j (.tail _ hj)
  case todo =>
    intro j hj
    rw [size_settle]
    exact h.todo j (.tail _ hj)

end Standing

lemma Book.settles_of_oneSpeech (h : ∀ j ∈ l, b.OneSpeech j) : b.Settles l := by
  induction l generalizing b with
  | nil => trivial
  | cons i l ih =>
    have hone := h i (.head _)
    refine ⟨fun _ => hone, ih fun j hj => ?_⟩
    rw [OneSpeech, ruleIds_of_content (b.size_settle i) (content_settle_of_oneSpeech hone)]
    exact h j (.tail _ hj)

/-- A run that comes to a mixed extension never ends: behind each one stands the next. -/
lemma Act.splitByLanguage_endless (h : Tidy b) (hlisting : b.Listing) {n} {e}
    (he : b.order[n]? = some e) (hext : b.IsExtension e) (hmixed : ¬b.OneSpeech e) :
    loop (visit splitByLanguage) n b = none := by
  let Stuck (n : Nat) (s : Book) : Prop :=
    Tidy s ∧ s.Listing ∧ ∃ e, s.order[n]? = some e ∧ s.IsExtension e ∧ ¬s.OneSpeech e
  refine loop_endless Stuck (fun {n s} hs => ?_) ⟨h, hlisting, e, he, hext, hmixed⟩
  obtain ⟨htidy, hlisting, e, he, hext, hmixed⟩ := hs
  rcases visit_splitByLanguage htidy hlisting n with
    ⟨hle, -⟩ | ⟨before, i, after, copies, t, rfl, horder, hrun, ht⟩
  · rw [List.getElem?_eq_none hle] at he
    cases he
  · obtain rfl : i = e := by simpa [horder] using he
    obtain ⟨j, rest, rfl, hj, hids⟩ := ht.extension hmixed hext
    refine ⟨_, t, hrun, ht.tidy, ht.listing hlisting, j, ?_, hj, fun hone => hmixed fun id hid id' hid' => ?_⟩
    · rw [ht.order]
      simp
    · rw [← ht.speech, ← ht.speech]
      rw [← hids] at hid hid'
      exact hone id hid id' hid'

namespace Standing
variable {c s : Book} {done fresh todo : List RoutineId}

lemma visit (h : Standing c s done fresh todo) (hnext : fresh ++ todo = i :: after) :
    ∃ copies t, loop (visit splitByLanguage) done.length s = loop (visit splitByLanguage) (done ++ [i]).length t ∧
      Parted s t done i copies after ∧ ∀ {u}, Voiced t u → Voiced s u := by
  have horder : s.order = done ++ i :: after := by rw [h.order, hnext]
  rcases visit_splitByLanguage h.tidy h.listing done.length with
    ⟨hle, -⟩ | ⟨before, i', after', copies, t, hlength, horder', hrun, ht⟩
  · rw [horder, length_append, length_cons] at hle
    omega
  · obtain ⟨rfl, hsame⟩ := append_inj (horder'.symm.trans horder) hlength
    obtain ⟨rfl, rfl⟩ := List.cons.inj hsame
    refine ⟨copies, t, ?_, ht, (ht.voiced h.tidy horder)⟩
    rw [loop_next hrun, length_append]
    rfl

/-- A run goes past the copies made on the way. -/
lemma pass_fresh (h : Standing c s done fresh todo) : ∃ done' t, loop (Act.visit Act.splitByLanguage) done.length s =
        loop (Act.visit Act.splitByLanguage) done'.length t ∧
      Standing c t done' [] todo ∧ ∀ {u}, Voiced t u → Voiced s u := by
  induction fresh generalizing s done with
  | nil => exact ⟨done, s, rfl, h, id⟩
  | cons i fresh ih =>
    obtain ⟨copies, t, hrun, ht, voiced⟩ := h.visit rfl
    obtain ⟨done', u, hrun', hu, voiced'⟩ := ih (h.next_fresh ht)
    exact ⟨done', u, hrun.trans hrun', hu, fun hv => voiced (voiced' hv)⟩

end Standing

/-- Where the routines to come settle the run ends, otherwise it does not. -/
lemma Act.splitByLanguage_loop {done fresh todo} (h : Standing c s done fresh todo) :
    (c.Settles todo → ∃ t, loop (visit splitByLanguage) done.length s = some (.ok (), t) ∧ Voiced s t) ∧
      (¬c.Settles todo → loop (visit splitByLanguage) done.length s = none) := by
  induction todo generalizing c s done fresh with
  | nil =>
    refine ⟨fun _ => ?_, (absurd trivial)⟩
    obtain ⟨done', t, hrun, ht, voiced⟩ := h.pass_fresh
    have horder : t.order = done' := by simpa using ht.order
    rcases visit_on splitByLanguage t done'.length with ⟨-, hstop⟩ | ⟨before, i, after, hlength, horder', -⟩
    · exact ⟨t, hrun.trans (loop_stop hstop), voiced (.refl ht.tidy
        (fun j hj => ht.done j (horder ▸ hj)) fun j hj => ht.named j (horder ▸ hj))⟩
    · have := congrArg List.length (horder.symm.trans horder')
      simp only [length_append, length_cons] at this
      omega
  | cons i todo ih =>
    obtain ⟨done', t, hrun, ht, voiced⟩ := h.pass_fresh
    have hlt := ht.todo i (.head _)
    rw [hrun]
    by_cases hi : c.IsExtension i → c.OneSpeech i
    · obtain ⟨copies, u, hrun', hu, voiced'⟩ := ht.visit rfl
      obtain ⟨hends, hendless⟩ := ih (ht.next_old hi hu)
      rw [hrun']
      refine ⟨fun hsettles => ?_, fun hnot => hendless fun hrest => hnot ⟨hi, hrest⟩⟩
      obtain ⟨v, hv, hvoiced⟩ := hends hsettles.2
      exact ⟨v, hv, voiced (voiced' hvoiced)⟩
    · refine ⟨fun hsettles => absurd hsettles.1 hi, fun _ => ?_⟩
      obtain ⟨hext, hmixed⟩ := Classical.not_imp.1 hi
      refine splitByLanguage_endless ht.tidy ht.listing ?_ ((ht.isExtension_iff hlt).2 hext)
        fun hone => hmixed ((ht.oneSpeech_iff hlt).1 hone)
      rw [ht.order]
      simp

/-- **Splitting all routines by language** ends exactly when they settle, and then each routine
speaks of one list of languages. -/
lemma Act.forRoutines_splitByLanguage (h : Tidy b) (hlisting : b.Listing) :
    (b.Settles b.order → ∃ b', (forRoutines splitByLanguage).on b = (.ok (), b') ∧ Voiced b b') ∧
      (¬b.Settles b.order → (forRoutines splitByLanguage).on b = (.error .unfinished, b)) := by
  have start : Standing b b [] [] b.order := by
    refine ⟨h, hlisting, rfl, h.layered, Nat.le_refl _, fun _ _ => rfl, rfl, ?_, ?_, ?_, h.within⟩
    all_goals simp
  obtain ⟨hends, hendless⟩ := splitByLanguage_loop start
  refine ⟨fun hsettles => ?_, fun hnot => ?_⟩
  · obtain ⟨b', hrun, hvoiced⟩ := hends hsettles
    exact ⟨b', forRoutines_eq_ok.2 hrun, hvoiced⟩
  · rw [forRoutines, on_repeated, show loop _ 0 b = none from hendless hnot]
    rfl

end GlyphRules
