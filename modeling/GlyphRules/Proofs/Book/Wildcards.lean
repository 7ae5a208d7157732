import GlyphRules.Proofs.Book.Arrangement

/-! Wildcards, and features arranged twice.

Completing a list of languages replaces one wildcard of each of its language systems
(`wildcards_iterate`). A list is completed once for each routine whose first rule holds it, so
wildcards may be left. Then the rules of a routine, which said the same, say different things, and
it is split when the features are arranged again. Where the lists are completed often enough
(`Book.Completes`), the second arrangement finds everything as the first left it
(`arrangeByScripts_stable_iff`). -/
namespace GlyphRules

open Step List Rule Book Act Option

variable {p : LanguageSystem} {ls : List LanguageSystem} {id : RuleId} {j : RoutineId}

/-! ### Wildcards of a language system -/

/-- How many of the two parts are wildcards. -/
def wildcards (p : LanguageSystem) : Nat := [p.1, p.2].count "*"

lemma wildcards_le_two (p) : wildcards p ≤ 2 := count_le_length

lemma wildcards_eq_zero : wildcards p = 0 ↔ p.1 ≠ "*" ∧ p.2 ≠ "*" := by
  unfold wildcards
  simp [count_eq_zero, eq_comm]

lemma wildcards_defaultSystem (p) : wildcards (defaultSystem p) = wildcards p - 1 := by
  obtain ⟨s, l⟩ := p
  unfold defaultSystem wildcards
  by_cases hs : s = "*"
  · simp [hs]
  · by_cases hl : l = "*"
    all_goals simp [hs, hl]

lemma wildcards_iterate (k) (p) : wildcards (defaultSystem^[k] p) = wildcards p - k := by
  induction k with
  | zero => rfl
  | succ k ih => rw [Function.iterate_succ_apply', wildcards_defaultSystem, ih, Nat.sub_sub]

lemma defaultSystem_of_wildcards (h : wildcards p = 0) : defaultSystem p = p := by
  obtain ⟨hs, hl⟩ := wildcards_eq_zero.1 h
  unfold defaultSystem
  simp [hs, hl]

/-- After two passes there is nothing left to do. -/
lemma iterate_defaultSystem_of_le (h : wildcards p ≤ k) : defaultSystem^[k] p = defaultSystem^[2] p := by
  have fixed {n} (hn : wildcards p ≤ n) m :
      defaultSystem^[m] (defaultSystem^[n] p) = defaultSystem^[n] p := by
    refine Function.iterate_fixed (defaultSystem_of_wildcards ?_) m
    rw [wildcards_iterate]
    omega
  calc defaultSystem^[k] p = defaultSystem^[2] (defaultSystem^[k] p) := (fixed h 2).symm
    _ = defaultSystem^[k] (defaultSystem^[2] p) := by
        rw [← Function.iterate_add_apply, Nat.add_comm, Function.iterate_add_apply]
    _ = defaultSystem^[2] p := fixed (wildcards_le_two p) k

/-! ### What is completed often enough -/

namespace Book

/-- The lists of the rules in force are completed at least as often as a language system in them has
wildcards. -/
def Completes (b : Book) : Prop :=
  ∀ id ∈ b.allRules, ∀ p ∈ (b.speech id).listed, wildcards p ≤ b.completions b.order id
deriving Decidable

/-- No routine in force that has rules names a wildcard. -/
def WildcardFree (b : Book) : Prop :=
  ∀ j ∈ b.order, b.ruleIds j ≠ [] → ∀ p ∈ (b.routine j).languages.listed, p.1 ≠ "*" ∧ p.2 ≠ "*"

end Book

structure Unchanged (b b' : Book) : Prop where
  order : b'.order = b.order
  languages : ∀ j ∈ b.order, (b'.routine j).languages = (b.routine j).languages
  ruleIds : ∀ j ∈ b.order, b'.ruleIds j = b.ruleIds j
  rules : ∀ id ∈ b.allRules, b'.rule id = b.rule id
  features : b'.features = b.features

/-- **Arranging the features is stable**: it leaves no wildcard, and doing it again changes nothing and
gives the same map. -/
def Book.ArrangesStably (b : Book) : Prop :=
  ∃ m b', Act.arrangeByScripts.on b = (.ok m, b') ∧ b'.WildcardFree ∧
    ∃ b'', Act.arrangeByScripts.on b' = (.ok m, b'') ∧ Unchanged b' b''

/-- Where all routines speak of one list of languages each, splitting does not change how often lists are
completed. -/
lemma Voiced.completes_iff (h : Voiced b b') (hone : ∀ j ∈ b.order, b.OneSpeech j) :
    b'.Completes ↔ b.Completes := by
  have unsplit := h.unsplit hone
  have shares (u id) : b'.sharesLanguages u id ↔ b.sharesLanguages u id := by
    unfold sharesLanguages
    rw [h.rule u, h.rule id]
  have leads (id) : ∀ j ∈ b.order, b'.leads id j = b.leads id j := by
    intro j hj
    unfold leads
    rw [unsplit.ruleIds j hj]
    simp only [shares]
  have completions (id) : b'.completions b'.order id = b.completions b.order id := by
    rw [unsplit.order]
    exact countP_congr fun j hj => by rw [leads id j hj]
  unfold Completes
  simp only [unsplit.allRules, h.speech_eq, completions]

/-! ### After the first arrangement -/

namespace Completed
variable {b b' : Book}

section
variable (h : Completed b b')
include h

lemma allRules : b'.allRules = b.allRules := by
  rw [Book.allRules, h.order]
  exact flatMap_congr fun j _ => h.ruleIds j

lemma speech (hls : b.speech id = .pairs ls) :
    b'.speech id = .pairs (ls.map defaultSystem^[b.completions b.order id]) := by
  rw [Book.speech, h.rule]
  rcases languagesAfter_of_speech hls b.order with hsome | ⟨hnone, rfl⟩
  · rw [hsome]
    rfl
  · rw [hnone]
    rfl

lemma body (id) : (b'.rule id).body = (b.rule id).body := by rw [h.rule]

lemma tidy (hb : Tidy b) : Tidy b' := by
  obtain ⟨rank, layered⟩ := hb.layered
  constructor
  case nodup => exact h.order ▸ hb.nodup
  case within =>
    rw [h.order, h.size]
    exact hb.within
  case layered =>
    refine ⟨rank, fun j => h.size ▸ layered.1 j, fun j rs hrs r hr => ?_⟩
    rw [h.routine] at hrs
    rw [h.size]
    exact layered.2 j rs hrs r hr
  case coherent =>
    have group (id) : (b'.rule id).group? = (b.rule id).group? := by
      unfold group?
      rw [h.body]
    have calls (id) : (b'.rule id).calls = (b.rule id).calls := by
      unfold calls
      rw [h.body]
    intro u id g hu hid
    rw [group] at hu hid
    rw [calls, calls]
    exact hb.coherent u id g hu hid
  case resolved =>
    intro id hid
    rw [dependencies, h.body]
    exact hb.resolved id (h.allRules ▸ hid)
  case slots =>
    intro id hid c hc
    rw [h.body] at hc
    exact hb.slots id (h.allRules ▸ hid) c hc

lemma legible (hb : Legible b) : Legible b' where
  rules id hid := by
    obtain ⟨ls, hls⟩ := hb.rules id (h.allRules ▸ hid)
    exact ⟨_, h.speech hls⟩
  routines j hj := ⟨_, h.languages j (h.order ▸ hj)⟩
  groups id id' g hid hid' := by
    have group (id) : (b'.rule id).languageGroup = (b.rule id).languageGroup := by rw [h.rule]
    rw [group] at hid hid'
    rw [h.rule, h.rule]
    exact hb.languagesAfter_eq (.inr ⟨g, hid, hid'⟩) b.order

/-- What said nothing says nothing. -/
lemma speaks (hb : Legible b) (hj : j ∈ b.order) (hspeaks : b'.Speaks j) : b.Speaks j := by
  obtain ⟨id, hid, hlanguages⟩ := hspeaks
  rw [h.ruleIds] at hid
  refine ⟨id, hid, ?_⟩
  obtain ⟨ls, hls⟩ := hb.rules id (mem_allRules.2 ⟨j, hj, hid⟩)
  unfold hasLanguages at hlanguages ⊢
  rw [h.rule] at hlanguages
  rcases languages_of_speech hls with hsome | ⟨hnone, -⟩
  · have after := (languagesAfter_of_speech hls b.order)
    unfold languagesAfter at after hlanguages
    rw [hsome, map_some, Languages.iterate_completed] at hlanguages
    rw [hsome]
    simpa [Languages.isEmpty] using hlanguages
  · rw [languagesAfter, hnone] at hlanguages
    cases hlanguages

lemma named (hb : b.Named j) : b'.Named j := by
  have name : (b'.routine j).name = (b.routine j).name := by rw [h.routine]
  constructor
  case features =>
    rw [h.features, name]
    exact hb.features
  case chains =>
    intro id hid
    rw [name]
    rw [chained, h.body]
    exact hb.chains id (h.allRules ▸ hid)

/-- Rules that are completed often enough say what two passes make of their languages. -/
lemma speech_of_completes (hb : b.Completes) (hid : id ∈ b.allRules)
    (hls : b.speech id = .pairs ls) : b'.speech id = .pairs (ls.map defaultSystem^[2]) := by
  rw [h.speech hls]
  congr 1
  refine map_congr_left fun p hp => iterate_defaultSystem_of_le (hb id hid p ?_)
  rwa [hls]

/-- The first rule of a routine has what the routine has, unless it says nothing. -/
lemma languages_eq (hb : Legible b) (hj : j ∈ b.order) {ids}
    (hids : b.ruleIds j = id :: ids) : (b'.routine j).languages =
      .pairs (if (b'.speech id).listed = [] then [("DFLT", "dflt")] else (b'.speech id).listed) := by
  obtain ⟨ls, hls⟩ := hb.rules id (mem_allRules.2 ⟨j, hj, by simp [hids]⟩)
  have listed : (b.speech id).listed = ls := by
    rw [hls]
    rfl
  have listed' : (b'.speech id).listed = ls.map defaultSystem^[b.completions b.order id] := by
    rw [h.speech hls]
    rfl
  rw [h.languages j hj]
  unfold finalVoice
  simp only [hids, listed, listed', map_eq_nil_iff]

lemma rule_eq (hb : Legible b) (hid : id ∈ b.allRules)
    (hwild : ∀ p ∈ (b.speech id).listed, wildcards p = 0) : b'.rule id = b.rule id := by
  obtain ⟨ls, hls⟩ := hb.rules id hid
  have same : b.languagesAfter b.order id = (b.rule id).languages := by
    unfold languagesAfter
    rcases languages_of_speech hls with hsome | ⟨hnone, -⟩
    · rw [hls] at hwild
      change ∀ p ∈ ls, wildcards p = 0 at hwild
      rw [hsome, map_some, Languages.iterate_completed,
        map_congr_left fun p hp => Function.iterate_fixed (defaultSystem_of_wildcards (hwild p hp)) _, List.map_id']
    · rw [hnone]
      rfl
  rw [h.rule, same]

end

end Completed

/-! ### The second arrangement -/

lemma Book.featureMap_congr {b b' : Book} (hrefs : b.Referring) (hfeatures : b'.features = b.features)
    (hscripts : b'.scripts = b.scripts)
    (hlanguages : ∀ j ∈ b.order, (b'.routine j).languages = (b.routine j).languages) :
    b'.featureMap = b.featureMap := by
  unfold featureMap FeatureMap.putFeatures
  rw [hfeatures, hscripts]
  refine foldl_ext _ _ _ fun m f hf => foldl_ext _ _ _ fun m c hc => ?_
  obtain ⟨l, n⟩ := c
  obtain ⟨name, j, hj, rfl⟩ := hrefs f hf l (fst_mem_of_mem_zipIdx hc)
  have systems : b'.systemsOf (.ref ⟨name, some j⟩) = b.systemsOf (.ref ⟨name, some j⟩) :=
    congrArg Languages.listed (hlanguages j hj)
  unfold FeatureMap.putCall
  rw [systems]

section Again
variable {b b₁ b' : Book}

section
variable (h : Completed b₁ b') (hb : Legible b₁)
include h hb

/-- Where the lists are completed often enough, every routine still speaks of one list. -/
lemma Completed.oneSpeech (hone : ∀ j ∈ b₁.order, b₁.OneSpeech j)
    (hcompletes : b₁.Completes) : ∀ j ∈ b'.order, b'.OneSpeech j := by
  intro j hj id hid id' hid'
  rw [h.order] at hj
  rw [h.ruleIds] at hid hid'
  have hmem : id ∈ b₁.allRules := mem_allRules.2 ⟨j, hj, hid⟩
  have hmem' : id' ∈ b₁.allRules := mem_allRules.2 ⟨j, hj, hid'⟩
  obtain ⟨ls, hls⟩ := hb.rules id hmem
  have hls' : b₁.speech id' = .pairs ls := (hone j hj id' hid' id hid).trans hls
  rw [h.speech_of_completes hcompletes hmem hls, h.speech_of_completes hcompletes hmem' hls']

lemma Completed.noWildcard (hcompletes : b₁.Completes)
    (hid : id ∈ b'.allRules) : ∀ p ∈ (b'.speech id).listed, wildcards p = 0 := by
  rw [h.allRules] at hid
  obtain ⟨ls, hls⟩ := hb.rules id hid
  rw [h.speech_of_completes hcompletes hid hls]
  intro p hp
  obtain ⟨q, -, rfl⟩ := mem_map.1 hp
  rw [wildcards_iterate]
  exact Nat.sub_eq_zero_of_le (wildcards_le_two q)

lemma Completed.wildcardFree (hcompletes : b₁.Completes) : b'.WildcardFree := by
  intro j hj hne p hp
  obtain ⟨id, ids, hids⟩ := exists_cons_of_ne_nil hne
  have hid : id ∈ b'.allRules := mem_allRules.2 ⟨j, hj, by simp [hids]⟩
  rw [h.languages_eq hb (h.order ▸ hj) (h.ruleIds j ▸ hids)] at hp
  split at hp
  · obtain rfl := mem_singleton.1 hp
    decide
  · exact wildcards_eq_zero.1 (h.noWildcard hb hcompletes hid p hp)

end

section
variable (hvoiced : Voiced b b₁) (hlegible : Legible b₁) (hrefs : b₁.Referring) (h : Completed b₁ b')
include hvoiced hlegible hrefs h

/-- **Completed lists are found as they were left**: arranging the features again changes nothing. -/
lemma Act.arrangeByScripts_again (hcompletes : b₁.Completes) :
    ∃ b'', arrangeByScripts.on b' = (.ok b'.featureMap, b'') ∧ Unchanged b' b'' := by
  have legible := h.legible hlegible
  have refs := h.referring hrefs
  have hone := h.oneSpeech hlegible hvoiced.oneSpeech hcompletes
  have named (j) (hj : j ∈ b'.order) (hspeaks : b'.Speaks j) : b'.Named j := by
    rw [h.order] at hj
    exact h.named (hvoiced.named j hj (h.speaks hlegible hj hspeaks))
  obtain ⟨b₂, b'', -, hvoiced₂, h₂, hrun⟩ :=
    (arrangeByScripts_completes (h.tidy hvoiced.tidy) legible refs).1 (settles_of_oneSpeech hone)
  have unsplit := hvoiced₂.unsplit hone
  obtain ⟨features, rules⟩ := hvoiced₂.calls hone named
  have legible₂ := hvoiced₂.legible legible
  have wild (id) (hid : id ∈ b'.allRules) : ∀ p ∈ (b₂.speech id).listed, wildcards p = 0 := by
    rw [hvoiced₂.speech_eq]
    exact h.noWildcard hlegible hcompletes hid
  have rule (id) hid : b''.rule id = b'.rule id :=
    (h₂.rule_eq legible₂ (unsplit.allRules ▸ hid) (wild id hid)).trans (rules id hid)
  have languages (j) (hj : j ∈ b'.order) : (b''.routine j).languages = (b'.routine j).languages := by
    have hj₂ : j ∈ b₂.order := unsplit.order ▸ hj
    cases hids : b'.ruleIds j with
    | nil =>
      obtain ⟨ls, hls⟩ := legible.routines j hj
      rw [h₂.languages j hj₂]
      unfold finalVoice
      simp only [unsplit.ruleIds j hj, hids, unsplit.languages j hj, hls]
      rfl
    | cons id ids =>
      have hid : id ∈ b'.allRules := mem_allRules.2 ⟨j, hj, by simp [hids]⟩
      have speech : b''.speech id = b'.speech id := by
        unfold speech
        rw [rule id hid]
      rw [h₂.languages_eq legible₂ hj₂ ((unsplit.ruleIds j hj).trans hids), speech,
        h.languages_eq hlegible (h.order ▸ hj) ((h.ruleIds j).symm.trans hids)]
  have order : b''.order = b'.order := h₂.order.trans unsplit.order
  have systems : b''.allSystems = b'.allSystems := by
    rw [allSystems, order]
    exact flatMap_congr fun j hj => by rw [languages j hj]
  have same : b''.featureMap = b'.featureMap := by
    refine featureMap_congr refs (h₂.features.trans features) ?_ languages
    rw [h₂.scripts, h.scripts, systems]
  refine ⟨b'', same ▸ hrun, order, languages, fun j hj => ?_, rule, h₂.features.trans features⟩
  rw [h₂.ruleIds]
  exact unsplit.ruleIds j hj

/-- **Only completed lists are found as they were left.** -/
lemma Completed.completes (hwild : b'.WildcardFree) {m} {b''}
    (hrun : arrangeByScripts.on b' = (.ok m, b'')) (hsame : Unchanged b' b'') : b₁.Completes := by
  have legible := h.legible hlegible
  obtain ⟨hends, hendless⟩ :=
    arrangeByScripts_completes (h.tidy hvoiced.tidy) legible (h.referring hrefs)
  have settles : b'.Settles b'.order := by
    refine Classical.byContradiction fun hnot => ?_
    rw [(hendless hnot).2] at hrun
    cases hrun
  obtain ⟨b₂, c, -, hvoiced₂, h₂, hrun₂⟩ := hends settles
  obtain rfl := congrArg Prod.snd (hrun₂.symm.trans hrun)
  intro id hid p hp
  obtain ⟨j, hj, hmem⟩ := mem_allRules.1 hid
  obtain ⟨first, ids, hids⟩ := exists_cons_of_ne_nil (ne_nil_of_mem hmem)
  have hj' : j ∈ b'.order := h.order.symm ▸ hj
  obtain ⟨ls, hls⟩ := hlegible.rules id hid
  have listed : (b'.speech id).listed = ls.map defaultSystem^[b₁.completions b₁.order id] := by
    rw [h.speech hls]
    rfl
  -- The routine was not split, so what the rule says is what the first rule says.
  have hone : b'.OneSpeech j := by
    intro x hx y hy
    have hj₂ : j ∈ b₂.order := by
      rwa [← h₂.order, hsame.order]
    rw [← hsame.ruleIds j hj', h₂.ruleIds] at hx hy
    rw [← hvoiced₂.speech_eq, ← hvoiced₂.speech_eq]
    exact hvoiced₂.oneSpeech j hj₂ x hx y hy
  have hfirst : b'.speech first = b'.speech id := by
    refine hone first ?_ id ?_
    · rw [h.ruleIds, hids]
      exact mem_cons_self ..
    · rwa [h.ruleIds]
  have hq : defaultSystem^[b₁.completions b₁.order id] p ∈ (b'.speech id).listed := by
    rw [listed]
    rw [hls] at hp
    exact mem_map_of_mem hp
  have hnot : b'.ruleIds j ≠ [] := by
    rw [h.ruleIds, hids]
    exact cons_ne_nil _ _
  have free := hwild j hj' hnot (defaultSystem^[b₁.completions b₁.order id] p)
  rw [h.languages_eq hlegible hj hids, hfirst, if_neg (ne_nil_of_mem hq)] at free
  have zero := wildcards_eq_zero.2 (free hq)
  rw [wildcards_iterate] at zero
  exact Nat.sub_eq_zero_iff_le.1 zero

end

end Again

/-- **Arranging the features is stable exactly when** the routines can be split by language, and every list
of languages is then completed as often as it needs. -/
theorem arrangeByScripts_stable_iff {b : Book} (h : Tidy b) (hlegible : Legible b) (hrefs : b.Referring) :
    b.ArrangesStably ↔ ∃ b₁, (Act.forRoutines Act.splitByLanguage).on b = (.ok (), b₁) ∧ b₁.Completes := by
  obtain ⟨hends, hendless⟩ := Act.arrangeByScripts_completes h hlegible hrefs
  by_cases hsettles : b.Settles b.order
  · obtain ⟨b₁, b', hsplit, hvoiced, hcompleted, hrun⟩ := hends hsettles
    have legible := hvoiced.legible hlegible
    have refs := hvoiced.referring hrefs
    constructor
    · rintro ⟨m, c, hrun', hwild, b'', hagain, hsame⟩
      obtain rfl : b' = c := congrArg Prod.snd (hrun.symm.trans hrun')
      exact ⟨b₁, hsplit, hcompleted.completes hvoiced legible refs hwild hagain hsame⟩
    · rintro ⟨c, hsplit', hcompletes⟩
      obtain rfl : b₁ = c := congrArg Prod.snd (hsplit.symm.trans hsplit')
      exact ⟨_, b', hrun, hcompleted.wildcardFree legible hcompletes,
        Act.arrangeByScripts_again hvoiced legible refs hcompleted hcompletes⟩
  · obtain ⟨hsplit, hrun⟩ := hendless hsettles
    constructor
    · rintro ⟨m, c, hrun', -⟩
      rw [hrun] at hrun'
      cases hrun'
    · rintro ⟨c, hsplit', -⟩
      rw [hsplit] at hsplit'
      cases hsplit'

section Sample

lemma Legible.of_checks (hrules : ∀ id ∈ b.allRules, b.speech id = .pairs (b.speech id).listed)
    (hroutines : ∀ j ∈ b.order, (b.routine j).languages = .pairs (b.routine j).languages.listed)
    (hgroups : ∀ r ∈ b.rules, ∀ r' ∈ b.rules, r.languageGroup.isSome → r'.languageGroup = r.languageGroup →
      r'.languages = r.languages) : Legible b := by
  refine ⟨fun id hid => ⟨_, hrules id hid⟩, fun j hj => ⟨_, hroutines j hj⟩, fun id id' g hid hid' => ?_⟩
  have member (id) := forall_rule (p := fun r => r.languageGroup = some g → r ∈ b.rules) (fun _ hr _ => hr) nofun id
  exact hgroups _ (member id hid) _ (member id' hid') (by rw [hid]; rfl) (hid'.trans hid.symm)

def letterRule (system : LanguageSystem) (group : Option Nat) : Rule :=
  { body := .substitution { input := some [["a"]], replacement := some [["b"]] }
    languages := some (.pairs [system])
    languageGroup := group }

/-- A rule for all languages of all scripts, in a routine and in an extension of it, and two rules that hold
one list. -/
def sharedBook : Book :=
  { routines := #[{ name := some "all", content := .rules [0] }, { name := some "outer", content := .extension [0] },
      { name := some "latin", content := .rules [1, 2] }]
    rules := #[letterRule ("*", "*") none, letterRule ("latn", "*") (some 0), letterRule ("latn", "*") (some 0)]
    order := [0, 1, 2]
    features := [("locl", [.ref ⟨some (some "latin"), some 2⟩, .ref ⟨some (some "outer"), some 1⟩])] }

theorem arrangeByScripts_stable_shared : (Tidy sharedBook ∧ Legible sharedBook ∧ sharedBook.Referring) ∧
    sharedBook.ArrangesStably := by
  have tidy : Tidy sharedBook := .of_checks (by decide : OneExtension _ 1) (by decide) (by decide)
  have legible : Legible sharedBook := .of_checks (by decide) (by decide) (by decide)
  have refs : sharedBook.Referring := .of_checks (by decide)
  have hone : ∀ j ∈ sharedBook.order, sharedBook.OneSpeech j := by decide
  obtain ⟨b₁, hrun, hvoiced⟩ :=
    (Act.forRoutines_splitByLanguage tidy legible.rules).1 (Book.settles_of_oneSpeech hone)
  refine ⟨⟨tidy, legible, refs⟩, (arrangeByScripts_stable_iff tidy legible refs).2 ⟨b₁, hrun, ?_⟩⟩
  exact (hvoiced.completes_iff hone).2 (by decide)

/-- One routine with these rules. -/
def letterBook (rules : List Rule) : Book :=
  { routines := #[{ name := some "letters", content := .rules (List.range rules.length) }]
    rules := rules.toArray
    order := [0]
    features := [("locl", [.ref ⟨some (some "letters"), some 0⟩])] }

/-- A rule for all languages of all scripts. -/
def wildBook : Book := letterBook [letterRule ("*", "*") none]

/-- Two rules for all languages of a script, each with a list of its own. -/
def separateBook : Book := letterBook [letterRule ("latn", "*") none, letterRule ("latn", "*") none]

/-- Lists that are not completed often enough make the arrangement unstable. -/
lemma Book.not_arrangesStably (h : Tidy b) (hlegible : Legible b) (hrefs : b.Referring)
    (hone : ∀ j ∈ b.order, b.OneSpeech j) (hnot : ¬b.Completes) : ¬b.ArrangesStably := by
  obtain ⟨b₁, b', -, hvoiced, hcompleted, hrun⟩ :=
    (arrangeByScripts_completes h hlegible hrefs).1 (settles_of_oneSpeech hone)
  rintro ⟨m, c, hrun', hwild, b'', hagain, hsame⟩
  obtain rfl := congrArg Prod.snd (hrun.symm.trans hrun')
  refine hnot ((hvoiced.completes_iff hone).1 ?_)
  exact hcompleted.completes hvoiced (hvoiced.legible hlegible) (hvoiced.referring hrefs) hwild hagain hsame

/-- **Two wildcards in one system, or two lists that say the same, make the arrangement unstable.** -/
theorem arrangeByScripts_unstable : (Tidy wildBook ∧ Legible wildBook ∧ wildBook.Referring ∧ ¬wildBook.ArrangesStably) ∧
      Tidy separateBook ∧ Legible separateBook ∧ separateBook.Referring ∧ ¬separateBook.ArrangesStably := by
  have wildTidy : Tidy wildBook := .of_checks (by decide : OneExtension _ 0) (by decide) (by decide)
  have wildLegible : Legible wildBook := .of_checks (by decide) (by decide) (by decide)
  have wildRefs : wildBook.Referring := .of_checks (by decide)
  have tidy : Tidy separateBook := .of_checks (by decide : OneExtension _ 0) (by decide) (by decide)
  have legible : Legible separateBook := .of_checks (by decide) (by decide) (by decide)
  have refs : separateBook.Referring := .of_checks (by decide)
  exact ⟨⟨wildTidy, wildLegible, wildRefs, Book.not_arrangesStably wildTidy wildLegible wildRefs (by decide) (by decide)⟩,
    tidy, legible, refs, Book.not_arrangesStably tidy legible refs (by decide) (by decide)⟩

end Sample

end GlyphRules
