import GlyphRules.Proofs.Dict
import GlyphRules.Proofs.Book.LanguageSplit

/-! The languages of routines.

A routine takes the list of languages of its first rule, with defaults in the place of wildcards and
of an empty list (`complete`). Rules of a group hold one list: it is completed once for each routine
whose first rule holds it (`Book.completions`), and all that hold it say in the end what came of
that (`Completed`). One wildcard is completed at once, so mostly the number makes no difference
(`Completed.hoisted`). From the routines the scripts and their languages are collected
(`Taken.hoistLanguages_on`). -/
namespace GlyphRules

open Step List Book Act Dict

variable {p : LanguageSystem} {ls : List LanguageSystem} {b b' : Book} {id u : RuleId}

/-! ### Known language systems -/

lemma mem_languagePairs {scripts} :
    p ∈ languagePairs scripts ↔ ∃ e ∈ scripts, p.1 = e.1 ∧ (p.2 = "dflt" ∨ p.2 ∈ e.2) := by
  have from_ ps : p ∈ scripts.foldl (fun ps e =>
      (if ps.contains (e.1, "dflt") then ps else ps ++ [(e.1, "dflt")]) ++ e.2.map fun l => (e.1, l)) ps ↔
      p ∈ ps ∨ ∃ e ∈ scripts, p.1 = e.1 ∧ (p.2 = "dflt" ∨ p.2 ∈ e.2) := by
    induction scripts generalizing ps with
    | nil => simp
    | cons e scripts ih =>
      obtain ⟨s, l⟩ := p
      have step : (s, l) ∈ (if ps.contains (e.1, "dflt") then ps else ps ++ [(e.1, "dflt")]) ++
          e.2.map (fun l => (e.1, l)) ↔ (s, l) ∈ ps ∨ s = e.1 ∧ (l = "dflt" ∨ l ∈ e.2) := by
        rw [mem_append, mem_ifNew, or_assoc, Prod.mk.injEq, mem_map, and_or_left]
        refine or_congr_right (or_congr_right ⟨?_, ?_⟩)
        · rintro ⟨l, hl, heq⟩
          cases heq
          exact ⟨rfl, hl⟩
        · rintro ⟨rfl, hl⟩
          exact ⟨l, hl, rfl⟩
      rw [foldl_cons, ih, step]
      simp [or_assoc]
  refine (from_ []).trans ?_
  simp

def languagesOf (scripts : List (String × List String)) (script : String) : List String :=
  (Dict.get? scripts script).getD []

lemma mem_languagesOf_addLanguage (scripts) (p) (s l) :
    l ∈ languagesOf (addLanguage scripts p) s ↔ l ∈ languagesOf scripts s ∨ (s, l) = p ∧ l ≠ "*" := by
  obtain ⟨script, language⟩ := p
  unfold languagesOf addLanguage
  rw [get?_alter]
  by_cases hs : s = script
  · subst hs
    rw [if_pos rfl, Option.getD_some]
    by_cases hold : language = "*" ∨ language ∈ (get? scripts s).getD []
    · rw [if_pos (by simpa using hold)]
      constructor
      · exact .inl
      · rintro (hl | ⟨heq, hwild⟩)
        · exact hl
        · cases heq
          exact hold.resolve_left hwild
    · rw [if_neg (by simpa using hold), mem_append, mem_singleton]
      obtain ⟨hwild, -⟩ := not_or.1 hold
      refine or_congr_right ⟨?_, ?_⟩
      · rintro rfl
        exact ⟨rfl, hwild⟩
      · rintro ⟨heq, -⟩
        cases heq
        rfl
  · simp [hs]

/-- What a list of language systems makes known: its scripts, and their languages but for wildcards. -/
lemma languagesOf_addLanguages (systems : List LanguageSystem) : ((systems.foldl addLanguage []).map (·.1)).Nodup ∧
      ∀ s, ((get? (systems.foldl addLanguage []) s).isSome ↔ ∃ l, (s, l) ∈ systems) ∧
        ∀ l, l ∈ languagesOf (systems.foldl addLanguage []) s ↔ (s, l) ∈ systems ∧ l ≠ "*" := by
  induction systems using List.reverseRecOn with
  | nil => simp [get?, languagesOf]
  | append_singleton systems p ih =>
    obtain ⟨hnodup, hknown⟩ := ih
    rw [foldl_append, foldl_cons, foldl_nil]
    refine ⟨nodup_alter hnodup _ _ _, fun s => ⟨?_, fun l => ?_⟩⟩
    · rw [addLanguage, get?_alter]
      split
      · next hs => simpa [hs] using ⟨p.2, .inr rfl⟩
      · next hs => simp [(hknown s).1, Prod.ext_iff, hs]
    · rw [mem_languagesOf_addLanguage, (hknown s).2, mem_append, mem_singleton, or_and_right]

/-- The language systems known from a list: its own, without wildcards, and the default of each script. -/
lemma mem_languagePairs_addLanguages {systems : List LanguageSystem} :
    p ∈ languagePairs (systems.foldl addLanguage []) ↔
      p ∈ systems ∧ p.2 ≠ "*" ∨ p.2 = "dflt" ∧ ∃ l, (p.1, l) ∈ systems := by
  obtain ⟨s, l⟩ := p
  obtain ⟨hnodup, hknown⟩ := languagesOf_addLanguages systems
  obtain ⟨hs, hl⟩ := hknown s
  rw [mem_languagePairs, ← hl, ← hs]
  constructor
  · rintro ⟨⟨s', ls⟩, he, rfl, hlanguage⟩
    rw [languagesOf, (mem_iff_get? hnodup).1 he]
    exact hlanguage.symm.imp id fun h => ⟨h, rfl⟩
  · unfold languagesOf
    cases hget : get? (systems.foldl addLanguage []) s with
    | none => simp
    | some ls =>
      intro hlanguage
      refine ⟨(s, ls), (mem_iff_get? hnodup).2 hget, rfl, ?_⟩
      simpa [or_comm] using hlanguage

/-! ### Languages of routines -/

def Languages.listed : Languages → List LanguageSystem
  | .pairs l => l
  | .text _ => []

/-- Languages after one pass that puts defaults in the place of wildcards. -/
def Languages.completed : Languages → Languages
  | .pairs ls => .pairs (ls.map Act.defaultSystem)
  | .text s => .text s

lemma Languages.iterate_completed (k) (ls) :
    Languages.completed^[k] (.pairs ls) = .pairs (ls.map defaultSystem^[k]) := by
  induction k generalizing ls with
  | zero => simp
  | succ k ih => rw [Function.iterate_succ_apply, completed, ih, map_map, Function.iterate_succ]

/-- The languages that a routine takes from its first rule: wildcards stand for defaults, and so does
an empty list. -/
def complete (ls : List LanguageSystem) : List LanguageSystem :=
  if ls = [] then [("DFLT", "dflt")] else ls.map Act.defaultSystem

lemma complete_ne_nil (ls) : complete ls ≠ [] := by
  unfold complete
  split
  · simp
  · next h => simpa using h

/-- Unless both parts are wildcards, a language system is completed at once. -/
lemma defaultSystem_idem (h : p ≠ ("*", "*")) : defaultSystem (defaultSystem p) = defaultSystem p := by
  obtain ⟨s, l⟩ := p
  unfold defaultSystem
  by_cases hs : s = "*"
  · have hl : l ≠ "*" := fun hl => h (by rw [hs, hl])
    simp [hs, hl]
  · by_cases hl : l = "*" <;> simp [hs, hl]

lemma map_iterate_defaultSystem (h : ("*", "*") ∉ ls) {k} (hk : k ≠ 0) :
    ls.map defaultSystem^[k] = ls.map defaultSystem := by
  obtain ⟨k, rfl⟩ := Nat.exists_eq_succ_of_ne_zero hk
  refine map_congr_left fun p hp => ?_
  have hp : p ≠ ("*", "*") := fun heq => h (heq ▸ hp)
  clear hk
  induction k with
  | zero => rfl
  | succ k ih => rw [Function.iterate_succ_apply', ih, defaultSystem_idem hp]

structure Legible (b : Book) : Prop where
  rules : b.Listing
  routines : ∀ j ∈ b.order, ∃ ls, (b.routine j).languages = .pairs ls
  groups : ∀ id id' g, (b.rule id).languageGroup = some g → (b.rule id').languageGroup = some g →
    (b.rule id').languages = (b.rule id).languages

lemma Voiced.legible (h : Voiced b b') (hb : Legible b) : Legible b' where
  rules id hid := by
    obtain ⟨ls, hls⟩ := hb.rules id (h.rules hid)
    exact ⟨ls, (h.speech_eq id).trans hls⟩
  routines j hj := by
    obtain ⟨k, hk, heq⟩ := h.languages j hj
    rw [heq]
    exact hb.routines k hk
  groups id id' g hid hid' := by
    rw [h.rule] at hid hid' ⊢
    rw [h.rule id]
    exact hb.groups id id' g hid hid'

/-- What the rules of a book say of languages can be read: it is listed, without a system of two wildcards,
and rules of one group say the same. -/
structure Spoken (b : Book) : Prop where
  rules : ∀ id ∈ b.allRules, ∃ ls, b.speech id = .pairs ls ∧ ("*", "*") ∉ ls
  routines : ∀ j ∈ b.order, ∃ ls, (b.routine j).languages = .pairs ls
  groups : ∀ id id' g, (b.rule id).languageGroup = some g → (b.rule id').languageGroup = some g →
    (b.rule id').languages = (b.rule id).languages

lemma Spoken.legible (h : Spoken b) : Legible b where
  rules id hid := by
    obtain ⟨ls, hls, -⟩ := h.rules id hid
    exact ⟨ls, hls⟩
  routines := h.routines
  groups := h.groups

lemma Spoken.listing (h : Spoken b) : b.Listing := h.legible.rules

lemma Voiced.spoken (h : Voiced b b') (hb : Spoken b) : Spoken b' where
  rules id hid := by
    obtain ⟨ls, hls, hwild⟩ := hb.rules id (h.rules hid)
    exact ⟨ls, (h.speech_eq id).trans hls, hwild⟩
  routines := (h.legible hb.legible).routines
  groups := (h.legible hb.legible).groups

namespace Book

/-- The languages that a routine ends with: those of its first rule, or its own if it has no rules. -/
def voice (b : Book) (j : RoutineId) : List LanguageSystem :=
  match b.ruleIds j with
  | [] => (b.routine j).languages.listed
  | id :: _ => complete (b.speech id).listed

def withLanguages (b : Book) (id : RuleId) (ls : List LanguageSystem) : Book :=
  match (b.rule id).languageGroup with
  | none => b.alterRule id fun r => { r with languages := some (.pairs ls) }
  | some g => { b with rules := b.rules.map fun r =>
      if r.languageGroup == some g then { r with languages := some (.pairs ls) } else r }

/-- Whether two rules are the same or hold one list of languages. -/
def sharesLanguages (b : Book) (u id : RuleId) : Prop :=
  u = id ∨ ∃ g, (b.rule u).languageGroup = some g ∧ (b.rule id).languageGroup = some g

instance (b : Book) (u id : RuleId) : Decidable (b.sharesLanguages u id) :=
  decidable_of_iff (u = id ∨ (b.rule u).languageGroup.isSome ∧ (b.rule u).languageGroup = (b.rule id).languageGroup)
    (or_congr_right isSome_and_eq)

lemma sharesLanguages_refl (b : Book) (id) : b.sharesLanguages id id := .inl rfl

lemma sharesLanguages.symm (h : b.sharesLanguages u id) : b.sharesLanguages id u := by
  rcases h with rfl | ⟨g, hu, hid⟩
  · exact .inl rfl
  · exact .inr ⟨g, hid, hu⟩

lemma sharesLanguages.trans {u v id} (h : b.sharesLanguages u v) (h' : b.sharesLanguages v id) :
    b.sharesLanguages u id := by
  rcases h with rfl | ⟨g, hu, hv⟩
  · exact h'
  · rcases h' with rfl | ⟨g', hv', hid⟩
    · exact .inr ⟨g, hu, hv⟩
    · exact .inr ⟨g', hu.trans (hv.symm.trans hv'), hid⟩

lemma rule_withLanguages (h : u < b.rules.size) (ls) (id) :
    (b.withLanguages u ls).rule id =
      if b.sharesLanguages u id then { b.rule id with languages := some (.pairs ls) } else b.rule id := by
  cases hg : (b.rule u).languageGroup with
  | none =>
    have alone : b.sharesLanguages u id ↔ u = id := by simp [sharesLanguages, hg]
    unfold withLanguages
    simp only [hg, alone]
    simp only [rule_eq, alterRule, Array.getElem?_modify]
    split
    · next hu =>
      subst hu
      simp [Array.getElem?_eq_getElem h]
    · rfl
  | some g =>
    have group : b.sharesLanguages u id ↔ (b.rule id).languageGroup = some g := by
      rw [sharesLanguages, hg]
      refine ⟨?_, fun hid => .inr ⟨g, rfl, hid⟩⟩
      rintro (rfl | ⟨g', hu, hid⟩)
      · exact hg
      · rwa [hu]
    unfold withLanguages
    simp only [hg, group]
    rcases Nat.lt_or_ge id b.rules.size with hid | hid
    · simp only [rule_eq, Array.getElem?_map, Array.getElem?_eq_getElem hid, Option.map_some, Option.getD_some,
        beq_iff_eq]
    · rw [rule_of_size_le (by simpa using hid), rule_of_size_le hid]
      rfl

lemma lt_of_languages (h : (b.rule u).languages = some l) : u < b.rules.size := by
  refine Nat.lt_of_not_le fun hle => ?_
  rw [rule_of_size_le hle] at h
  cases h

/-- A rule that says nothing speaks of no language. -/
lemma languages_of_speech (h : b.speech id = .pairs ls) :
    (b.rule id).languages = some (.pairs ls) ∨ (b.rule id).languages = none ∧ ls = [] := by
  unfold speech at h
  cases hlanguages : (b.rule id).languages with
  | none =>
    rw [hlanguages] at h
    exact .inr ⟨rfl, (Languages.pairs.inj h).symm⟩
  | some l =>
    rw [hlanguages] at h
    exact .inl (congrArg some h)

/-- Whether the first rule of a routine holds the list of a rule. -/
def leads (b : Book) (id : RuleId) (i : RoutineId) : Bool :=
  (b.ruleIds i).head?.any fun u => decide (b.sharesLanguages u id)

/-- How often the list of a rule is completed: once for each routine whose first rule holds it. -/
def completions (b : Book) (routines : List RoutineId) (id : RuleId) : Nat := routines.countP (b.leads id)

lemma leads_cons {first} {rest} (hids : b.ruleIds i = first :: rest)
    (id) : b.leads id i = decide (b.sharesLanguages first id) := by
  rw [leads, hids]
  rfl

lemma completions_congr (h : b.sharesLanguages u id) (routines) :
    b.completions routines u = b.completions routines id := by
  unfold completions leads
  refine countP_congr fun i _ => ?_
  cases (b.ruleIds i).head? with
  | none => rfl
  | some first =>
    simp only [Option.any_some, decide_eq_true_iff]
    exact ⟨fun hu => hu.trans h, fun hid => hid.trans h.symm⟩

def languagesAfter (b : Book) (routines : List RoutineId) (id : RuleId) : Option Languages :=
  (b.rule id).languages.map Languages.completed^[b.completions routines id]

lemma languagesAfter_concat (b : Book) (done) (i) (id) :
    b.languagesAfter (done ++ [i]) id =
      if b.leads id i then (b.languagesAfter done id).map Languages.completed else b.languagesAfter done id := by
  unfold languagesAfter completions
  rw [countP_append, countP_singleton]
  split
  · rw [Function.iterate_succ', Option.map_map]
  · rfl

lemma languagesAfter_of_speech (h : b.speech id = .pairs ls) (routines) :
    b.languagesAfter routines id = some (.pairs (ls.map defaultSystem^[b.completions routines id])) ∨
      b.languagesAfter routines id = none ∧ ls = [] := by
  unfold languagesAfter
  rcases languages_of_speech h with hlanguages | ⟨hlanguages, rfl⟩
  · rw [hlanguages, Option.map_some, Languages.iterate_completed]
    exact .inl rfl
  · rw [hlanguages]
    exact .inr ⟨rfl, rfl⟩

/-- The languages that a routine ends with: what the list says in the end that it takes from its first rule. -/
def finalVoice (b : Book) (j : RoutineId) : List LanguageSystem :=
  match b.ruleIds j with
  | [] => (b.routine j).languages.listed
  | id :: _ =>
    if (b.speech id).listed = [] then [("DFLT", "dflt")]
    else (b.speech id).listed.map Act.defaultSystem^[b.completions b.order id]

end Book

namespace Legible

/-- Rules that hold one list say the same. -/
lemma languages_eq (h : Legible b) (hs : b.sharesLanguages u id) : (b.rule id).languages = (b.rule u).languages := by
  rcases hs with rfl | ⟨g, hu, hid⟩
  · rfl
  · exact h.groups u id g hu hid

lemma languagesAfter_eq (h : Legible b) (hs : b.sharesLanguages u id) (routines) :
    b.languagesAfter routines id = b.languagesAfter routines u := by
  unfold languagesAfter
  rw [h.languages_eq hs, completions_congr hs]

end Legible

namespace Act
variable {i : RoutineId} {first : RuleId} {rest : List RuleId}

lemma takeLanguages_default (hids : b.ruleIds i = first :: rest)
    (h : (b.rule first).languages = none ∨ (b.rule first).languages = some (.pairs [])) :
    (takeLanguages i).on b = (.ok (), b.alterRoutine i fun r => { r with languages := .pairs [("DFLT", "dflt")] }) := by
  rw [takeLanguages, on_get_bind, hids]
  rcases h with h | h
  all_goals exact (on_bind_ok (on_get b) _).trans (by rw [h]; rfl)

lemma takeLanguages_pairs (hids : b.ruleIds i = first :: rest) (hne : ls ≠ [])
    (h : (b.rule first).languages = some (.pairs ls)) : (takeLanguages i).on b =
      (.ok (), (b.withLanguages first (ls.map defaultSystem)).alterRoutine i fun r =>
        { r with languages := .pairs (ls.map defaultSystem) }) := by
  obtain ⟨p, ls, rfl⟩ := exists_cons_of_ne_nil hne
  rw [takeLanguages, on_get_bind, hids]
  refine (on_bind_ok (on_get b) _).trans ?_
  rw [h]
  rfl

end Act

/-- Languages have been taken for the first routines. The list of a rule has been completed once for each of
them whose first rule holds it. -/
structure Taken (b : Book) (done : List RoutineId) (s : Book) : Prop where
  rest : { s with routines := b.routines, rules := b.rules } = b
  size : s.routines.size = b.routines.size
  rule : ∀ id, s.rule id = { b.rule id with languages := b.languagesAfter done id }
  routine : ∀ j, s.routine j = { b.routine j with languages := (s.routine j).languages }
  bare : ∀ j, b.ruleIds j = [] → (s.routine j).languages = (b.routine j).languages
  silent : ∀ j ∈ done, ∀ first rest, b.ruleIds j = first :: rest → (b.speech first).listed = [] →
    (s.routine j).languages = .pairs [("DFLT", "dflt")]

lemma Taken.start (b) : Taken b [] b where
  rest := rfl
  size := rfl
  rule id := by
    unfold languagesAfter
    cases hid : (b.rule id).languages <;> simp [completions, ← hid]
  routine _ := rfl
  bare _ _ := rfl
  silent _ hj := by cases hj

namespace Taken
variable {s : Book} {done : List RoutineId} {i : RoutineId} {first : RuleId} {rest : List RuleId}

lemma ruleIds (h : Taken b done s) (j) : s.ruleIds j = b.ruleIds j :=
  ruleIds_of_content h.size (fun j => by rw [h.routine]) j

lemma sharesLanguages (h : Taken b done s) (u id) : s.sharesLanguages u id ↔ b.sharesLanguages u id := by
  unfold Book.sharesLanguages
  rw [h.rule, h.rule]

lemma keep (h : Taken b done s) (hempty : b.ruleIds i = []) : Taken b (done ++ [i]) s where
  rest := h.rest
  size := h.size
  rule id := by
    have leads : b.leads id i = false := by
      rw [leads, hempty]
      rfl
    rw [h.rule, languagesAfter_concat, leads]
    rfl
  routine := h.routine
  bare := h.bare
  silent j hj first rest hids := by
    rcases mem_append.1 hj with hj | hj
    · exact h.silent j hj first rest hids
    · rw [mem_singleton.1 hj, hempty] at hids
      cases hids

/-- A routine with rules has its languages set, when those of its first rule are completed. -/
lemma alterRoutine {t : Book} (h : Taken b done s) (hids : b.ruleIds i = first :: rest)
    (hrest : { t with rules := s.rules } = s)
    (hrule : ∀ id, t.rule id = { b.rule id with languages := b.languagesAfter (done ++ [i]) id })
    (hls : (b.speech first).listed = [] → ls = [("DFLT", "dflt")]) :
    Taken b (done ++ [i]) (t.alterRoutine i fun r => { r with languages := .pairs ls }) := by
  have hne : b.ruleIds i ≠ [] := by simp [hids]
  have routines : t.routines = s.routines := congrArg (·.routines) hrest
  have routine := routine_of_eq routines
  have hlt : i < t.routines.size := by
    rw [routines, h.size]
    exact lt_of_ruleIds hne
  constructor
  case rest =>
    have hrest := congrArg (fun x : Book => { x with routines := b.routines, rules := b.rules }) hrest
    exact hrest.trans h.rest
  case size =>
    rw [size_alterRoutine, routines]
    exact h.size
  case rule => exact hrule
  case routine =>
    intro j
    by_cases hj : j = i
    · subst hj
      rw [routine_alterRoutine_self hlt, routine, h.routine]
    · rw [routine_alterRoutine_ne t hj, routine]
      exact h.routine j
  case bare =>
    intro j hj
    have hji : j ≠ i := fun heq => hne (heq ▸ hj)
    rw [routine_alterRoutine_ne t hji, routine]
    exact h.bare j hj
  case silent =>
    intro j hj first' rest' hids' hsilent
    by_cases heq : j = i
    · subst heq
      obtain ⟨rfl, -⟩ := List.cons.inj (hids'.symm.trans hids)
      rw [routine_alterRoutine_self hlt, hls hsilent]
    · rw [routine_alterRoutine_ne t heq, routine]
      exact h.silent j ((mem_append.1 hj).resolve_right fun hj => heq (mem_singleton.1 hj)) first' rest' hids' hsilent

lemma step (h : Taken b done s) (hb : Legible b) (hi : i ∈ b.order) :
    ∃ t, (takeLanguages i).on s = (.ok (), t) ∧ Taken b (done ++ [i]) t := by
  cases hids : b.ruleIds i with
  | nil =>
    refine ⟨s, ?_, h.keep hids⟩
    rw [takeLanguages, on_get_bind, h.ruleIds, hids]
    rfl
  | cons first rest =>
    obtain ⟨ls, hls⟩ := hb.rules first (mem_allRules.2 ⟨i, hi, by simp [hids]⟩)
    have hids' : s.ruleIds i = first :: rest := (h.ruleIds i).trans hids
    have languages (id) : (s.rule id).languages = b.languagesAfter done id := by rw [h.rule]
    have listed : (b.speech first).listed = ls := by
      rw [hls]
      rfl
    by_cases hempty : ls = []
    · -- Nothing is said, and completing that changes no rule.
      have hsilent : b.languagesAfter done first = none ∨ b.languagesAfter done first = some (.pairs []) := by
        rcases languagesAfter_of_speech hls done with hsome | ⟨hnone, -⟩
        · exact .inr (hsome.trans (by rw [hempty]; rfl))
        · exact .inl hnone
      refine ⟨_, takeLanguages_default hids' (by rwa [languages]), h.alterRoutine hids rfl (fun id => ?_) fun _ => rfl⟩
      rw [h.rule, languagesAfter_concat, leads_cons hids]
      split
      · next hshares =>
        rw [hb.languagesAfter_eq (of_decide_eq_true hshares)]
        rcases hsilent with hsilent | hsilent <;> rw [hsilent] <;> rfl
      · rfl
    · have hlanguages := (languagesAfter_of_speech hls done).resolve_right fun hnone => hempty hnone.2
      have hfirst := (languages first).trans hlanguages
      refine ⟨_, takeLanguages_pairs hids' (by simpa using hempty) hfirst,
        h.alterRoutine hids (by unfold withLanguages; split <;> rfl) (fun id => ?_)
          fun hnone => absurd (listed.symm.trans hnone) hempty⟩
      rw [rule_withLanguages (lt_of_languages hfirst), languagesAfter_concat, leads_cons hids, h.rule]
      simp only [h.sharesLanguages, decide_eq_true_iff]
      split
      · next hshares =>
        rw [hb.languagesAfter_eq hshares, hlanguages]
        rfl
      · rfl

lemma run (hb : Legible b) : ∃ t, (b.order.forM takeLanguages).on b = (.ok (), t) ∧ Taken b b.order t :=
  on_forM_reaches (Taken b) (fun hi hs => hs.step hb hi) (.start b)

end Taken

/-! ### Lists held in common -/

namespace Book

lemma size_shareLanguages (b : Book) : b.shareLanguages.routines.size = b.routines.size := Array.size_mapIdx

lemma routine_shareLanguages (b : Book) (j) : b.shareLanguages.routine j =
    if j ∈ b.order then { b.routine j with languages := b.heldLanguages j } else b.routine j := by
  rcases Nat.lt_or_ge j b.routines.size with hlt | hge
  · simp only [routine_eq, shareLanguages, Array.getElem?_mapIdx, Array.getElem?_eq_getElem hlt, Option.map_some,
      Option.getD_some, contains_iff_mem]
  · have hids : b.ruleIds j = [] := ruleIds_rules (by rw [routine_of_size_le hge])
    have held : b.heldLanguages j = (b.routine j).languages := by
      rw [heldLanguages, hids]
      rfl
    rw [held, routine_of_size_le hge, routine_of_size_le (by rwa [size_shareLanguages])]
    split <;> rfl

end Book

def Book.allSystems (b : Book) : List LanguageSystem :=
  b.order.flatMap fun j => (b.routine j).languages.listed

/-- The languages of all routines have been taken and collected: routines and rules say in the end what the
lists say that they hold. -/
structure Completed (b b' : Book) : Prop where
  rest : { b' with routines := b.routines, rules := b.rules, scripts := b.scripts } = b
  size : b'.routines.size = b.routines.size
  rule : ∀ id, b'.rule id = { b.rule id with languages := b.languagesAfter b.order id }
  routine : ∀ j, b'.routine j = { b.routine j with languages := (b'.routine j).languages }
  languages : ∀ j ∈ b.order, (b'.routine j).languages = .pairs (b.finalVoice j)
  scripts : b'.scripts = b'.allSystems.foldl addLanguage []

namespace Taken
variable {s : Book}

lemma heldLanguages (h : Taken b b.order s) (hb : Legible b) {j} (hj : j ∈ b.order) :
    s.heldLanguages j = .pairs (b.finalVoice j) := by
  have languages (id) : (s.rule id).languages = b.languagesAfter b.order id := by rw [h.rule]
  unfold Book.heldLanguages Book.finalVoice
  rw [h.ruleIds]
  cases hids : b.ruleIds j with
  | nil =>
    obtain ⟨ls, hls⟩ := hb.routines j hj
    simp only [h.bare j hids, hls]
    rfl
  | cons first rest =>
    obtain ⟨ls, hls⟩ := hb.rules first (mem_allRules.2 ⟨j, hj, by simp [hids]⟩)
    have listed : (b.speech first).listed = ls := by
      rw [hls]
      rfl
    simp only [List.head?_cons, Option.bind_some, languages, listed]
    cases ls with
    | nil =>
      rw [h.silent j hj first rest hids listed]
      rcases languagesAfter_of_speech hls b.order with hsome | ⟨hnone, -⟩
      · rw [hsome]
        rfl
      · rw [hnone]
        rfl
    | cons p ls =>
      rw [(languagesAfter_of_speech hls b.order).resolve_right fun hnone => cons_ne_nil _ _ hnone.2]
      rfl

lemma hoistLanguages_on (h : Taken b b.order s) (hb : Legible b) :
    ∃ b', hoistLanguages.on s.shareLanguages = (.ok (), b') ∧ Completed b b' := by
  have order : s.order = b.order := congrArg (·.order) h.rest
  have routine (j) : s.shareLanguages.routine j =
      { b.routine j with languages := (s.shareLanguages.routine j).languages } := by
    rw [routine_shareLanguages]
    split
    · rw [h.routine]
    · exact h.routine j
  have size : s.shareLanguages.routines.size = b.routines.size := s.size_shareLanguages.trans h.size
  have ruleIds := ruleIds_of_content size fun j => by rw [routine]
  have languages (j) (hj : j ∈ b.order) : (s.shareLanguages.routine j).languages = .pairs (b.finalVoice j) := by
    rw [routine_shareLanguages, if_pos (order ▸ hj)]
    exact h.heldLanguages hb hj
  have systems (j) (hj : j ∈ b.order) :
      s.shareLanguages.routineSystems j = .ok (s.shareLanguages.routine j).languages.listed := by
    unfold routineSystems
    simp only [languages j hj]
    by_cases hempty : b.finalVoice j = []
    · have hids : b.ruleIds j = [] := by
        unfold finalVoice at hempty
        split at hempty
        · assumption
        · next id ids hids =>
          split at hempty
          · cases hempty
          · next hne => exact absurd (map_eq_nil_iff.1 hempty) hne
      have hrules : s.shareLanguages.rulesOf j = [] := by
        rw [rulesOf, ruleIds, hids]
        rfl
      rw [hempty, hrules]
      rfl
    · have hne : (Languages.pairs (b.finalVoice j)).isEmpty = false := by simpa [Languages.isEmpty] using hempty
      rw [hne]
      rfl
  have collect : s.shareLanguages.collectLanguages = .ok (s.shareLanguages.allSystems.foldl addLanguage []) := by
    rw [collectLanguages, mapM_ok fun j (hj : j ∈ s.shareLanguages.order) => systems j (order ▸ hj)]
    rfl
  refine ⟨{ s.shareLanguages with scripts := s.shareLanguages.allSystems.foldl addLanguage [] }, ?_, ?_⟩
  · rw [hoistLanguages, on_get_bind, collect]
    rfl
  · constructor
    case rest => exact congrArg (fun x : Book => { x with scripts := b.scripts }) h.rest
    case size => exact size
    case rule => exact h.rule
    case routine => exact routine
    case languages => exact languages
    case scripts => rfl

end Taken

namespace Completed

lemma order (h : Completed b b') : b'.order = b.order := congrArg (·.order) h.rest

lemma features (h : Completed b b') : b'.features = b.features := congrArg (·.features) h.rest

lemma ruleIds (h : Completed b b') (j) : b'.ruleIds j = b.ruleIds j :=
  ruleIds_of_content h.size (fun j => by rw [h.routine]) j

end Completed

/-! ### Lists completed once -/

/-- The languages of all routines have been taken and collected, and no list had to be completed twice. -/
structure Hoisted (b b' : Book) : Prop where
  order : b'.order = b.order
  features : b'.features = b.features
  ruleIds : ∀ j, b'.ruleIds j = b.ruleIds j
  speech : ∀ id ∈ b.allRules, (b'.rule id).languages = (b.rule id).languages ∨ ∃ ls,
    (b.rule id).languages = some (.pairs ls) ∧ (b'.rule id).languages = some (.pairs (ls.map Act.defaultSystem))
  languages : ∀ j ∈ b.order, (b'.routine j).languages = .pairs (b.voice j)
  scripts : b'.scripts = b'.allSystems.foldl addLanguage []

/-- Without systems of two wildcards it makes no difference how often a list is completed. -/
lemma Completed.hoisted (h : Completed b b') (hb : Spoken b) : Hoisted b b' where
  order := h.order
  features := h.features
  ruleIds := h.ruleIds
  speech id hid := by
    obtain ⟨ls, hls, hwild⟩ := hb.rules id hid
    have after : (b'.rule id).languages = b.languagesAfter b.order id := by rw [h.rule]
    rw [after]
    unfold languagesAfter
    rcases languages_of_speech hls with hlanguages | ⟨hlanguages, -⟩
    · rw [hlanguages, Option.map_some, Languages.iterate_completed]
      by_cases hzero : b.completions b.order id = 0
      · rw [hzero, Function.iterate_zero, map_id]
        exact .inl rfl
      · rw [map_iterate_defaultSystem hwild hzero]
        exact .inr ⟨ls, rfl, rfl⟩
    · rw [hlanguages]
      exact .inl rfl
  languages j hj := by
    rw [h.languages j hj]
    unfold finalVoice voice
    split
    · rfl
    · next id ids hids =>
      obtain ⟨ls, hls, hwild⟩ := hb.rules id (mem_allRules.2 ⟨j, hj, by simp [hids]⟩)
      have hleads : b.completions b.order id ≠ 0 := by
        rw [completions, Ne, countP_eq_zero]
        intro hnone
        refine hnone j hj ?_
        rw [leads_cons hids]
        exact decide_eq_true (b.sharesLanguages_refl id)
      have listed : (b.speech id).listed = ls := by
        rw [hls]
        rfl
      rw [complete, listed, map_iterate_defaultSystem hwild hleads]
  scripts := h.scripts

end GlyphRules
