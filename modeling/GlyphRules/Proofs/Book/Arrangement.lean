import GlyphRules.Proofs.Book.FeatureMap
import GlyphRules.Proofs.Book.RoutineLanguages

/-! Features arranged by script and language.

The arrangement splits the routines by language, lets each take the languages of its rules, and
lists the calls of a feature under the language systems that their routines name or a default of
theirs covers (`Arranged`). It succeeds once the routines are split; `arrangeByScripts_arranges_iff`
says when they are. -/
namespace GlyphRules

open Step Book Act

variable {p : LanguageSystem} {pairs ls : List LanguageSystem} {b b' : Book}

/-! ### One call after the other -/

def Book.systemsOf (b : Book) (l : Lookup) : List LanguageSystem :=
  l.routine?.elim [] fun j => (b.routine j).languages.listed

namespace Act

def putCall (b : Book) (pairs : List LanguageSystem) (tag : String) (m : FeatureMap) (c : Lookup × Nat) :
    Act FeatureMap :=
  match c.1 with
  | .bare _ | .ref { routine := none, .. } => throw .missingPart
  | .ref { routine := some i, .. } => do
    let systems ← ofExcept (b.routine i).languages.systems?
    return systems.foldl (fun m s => m.putCovered pairs tag s (c.2, c.1)) m

def putFeature (b : Book) (pairs : List LanguageSystem) (m : FeatureMap) (f : String × List Lookup) :
    Act FeatureMap := f.2.zipIdx.foldlM (putCall b pairs f.1) m

lemma arrangeByScripts_eq : arrangeByScripts = (do
    forRoutines splitByLanguage
    let b ← get
    for i in b.order do
      takeLanguages i
    modify shareLanguages
    hoistLanguages
    let b ← get
    b.features.foldlM (putFeature b (languagePairs b.scripts)) []) := rfl

end Act

namespace Completed

lemma referring (h : Completed b b') (hb : b.Referring) : b'.Referring := by
  unfold Referring
  rwa [h.order, h.features]

end Completed

def Book.featureMap (b : Book) : FeatureMap :=
  FeatureMap.putFeatures b.systemsOf (languagePairs b.scripts) b.features []

/-- **The arrangement**: where the routines settle they are split by language, their languages are taken
and collected, and every call is put under its keys; where they do not, the arrangement never ends. -/
lemma Act.arrangeByScripts_completes (h : Tidy b) (hlegible : Legible b) (hrefs : b.Referring) :
    (b.Settles b.order → ∃ b₁ b', (forRoutines splitByLanguage).on b = (.ok (), b₁) ∧ Voiced b b₁ ∧
        Completed b₁ b' ∧ arrangeByScripts.on b = (.ok b'.featureMap, b')) ∧
      (¬b.Settles b.order → (forRoutines splitByLanguage).on b = (.error .unfinished, b) ∧
        arrangeByScripts.on b = (.error .unfinished, b)) := by
  obtain ⟨hends, hendless⟩ := forRoutines_splitByLanguage h hlegible.rules
  rw [arrangeByScripts_eq]
  refine ⟨fun hsettles => ?_, fun hnot => ⟨hendless hnot, on_bind_error (hendless hnot) _⟩⟩
  obtain ⟨b₁, hrun, hvoiced⟩ := hends hsettles
  have legible := hvoiced.legible hlegible
  obtain ⟨s, htake, htaken⟩ := Taken.run legible
  obtain ⟨b', hhoist, hcompleted⟩ := htaken.hoistLanguages_on legible
  refine ⟨b₁, b', hrun, hvoiced, hcompleted, ?_⟩
  rw [on_bind_ok hrun, on_get_bind, on_bind_ok ((on_forIn takeLanguages b₁.order b₁).trans htake),
    on_bind_ok (on_modify _ s), on_bind_ok hhoist, on_get_bind]
  refine on_foldlM_pure (fun m f hf => on_foldlM_pure (fun m c hc => ?_) m) []
  obtain ⟨l, n⟩ := c
  obtain ⟨name, j, hj, rfl⟩ := hcompleted.referring (hvoiced.referring hrefs) f hf l (List.fst_mem_of_mem_zipIdx hc)
  have systems : (b'.routine j).languages.systems? = .ok (b'.routine j).languages.listed := by
    rw [hcompleted.languages j (hcompleted.order ▸ hj)]
    rfl
  unfold putCall
  simp only [systems]
  rfl

lemma Act.arrangeByScripts_on (h : Tidy b) (hspoken : Spoken b) (hrefs : b.Referring) :
    (b.Settles b.order → ∃ b₁ b', Voiced b b₁ ∧ Hoisted b₁ b' ∧ arrangeByScripts.on b = (.ok b'.featureMap, b')) ∧
      (¬b.Settles b.order → arrangeByScripts.on b = (.error .unfinished, b)) := by
  obtain ⟨hends, hendless⟩ := arrangeByScripts_completes h hspoken.legible hrefs
  refine ⟨fun hsettles => ?_, fun hnot => (hendless hnot).2⟩
  obtain ⟨b₁, b', -, hvoiced, hcompleted, hrun⟩ := hends hsettles
  exact ⟨b₁, b', hvoiced, hcompleted.hoisted (hvoiced.spoken hspoken), hrun⟩

/-! ### What is listed where -/

/-- A language system is known if a routine in force names it, or if it is the default of a script that
one names. -/
def Book.Knows (b : Book) (p : LanguageSystem) : Prop :=
  p ∈ b.allSystems ∨ p.2 = "dflt" ∧ ∃ l, (p.1, l) ∈ b.allSystems

/-- Whether languages are for a language system: they name it, or the default of its script, or the
default of all scripts. -/
def isListed (p : LanguageSystem) (ls : List LanguageSystem) : Bool :=
  [p, (p.1, "dflt"), ("DFLT", "dflt")].any ls.contains

lemma isListed_iff : isListed p ls = true ↔ p ∈ ls ∨ (p.1, "dflt") ∈ ls ∨ ("DFLT", "dflt") ∈ ls := by
  simp [isListed]

def Book.callsFor (b : Book) (p : LanguageSystem) (calls : List Lookup) : List (Nat × Lookup) :=
  (calls.zipIdx.filter fun c => isListed p (b.systemsOf c.1)).map fun c => (c.2, c.1)

/-- **Features are arranged**: every routine speaks of the languages of all its rules, features hold
references to routines in force, and under each known language system a feature lists those of
its calls that are for it, in their order; there is no entry where there is none. -/
structure Arranged (b : Book) (m : FeatureMap) : Prop where
  speaks : ∀ j ∈ b.order, ∀ id ∈ b.ruleIds j, (b.routine j).languages = .pairs (complete (b.speech id).listed)
  refers : b.Referring
  lists : ∀ f ∈ b.features, ∀ p, b.Knows p → m.get? ⟨f.1, p.1, p.2⟩ = FeatureMap.entry (b.callsFor p f.2)

/-- No rule and no routine in force names a wildcard. -/
def Book.NoWildcards (b : Book) : Prop :=
  (∀ id ∈ b.allRules, ∀ p ∈ (b.speech id).listed, p.1 ≠ "*" ∧ p.2 ≠ "*") ∧
    ∀ j ∈ b.order, ∀ p ∈ (b.routine j).languages.listed, p.1 ≠ "*" ∧ p.2 ≠ "*"
deriving Decidable

lemma Voiced.noWildcards (h : Voiced b b') (hb : b.NoWildcards) : b'.NoWildcards := by
  refine ⟨fun id hid => ?_, fun j hj => ?_⟩
  · rw [h.speech_eq]
    exact hb.1 id (h.rules hid)
  · obtain ⟨k, hk, heq⟩ := h.languages j hj
    rw [heq]
    exact hb.2 k hk

lemma map_defaultSystem_of_ne (h : ∀ p ∈ ls, p.1 ≠ "*" ∧ p.2 ≠ "*") : ls.map defaultSystem = ls := by
  refine (List.map_congr_left fun p hp => ?_).trans (List.map_id ls)
  obtain ⟨hs, hl⟩ := h p hp
  unfold defaultSystem
  simp [hs, hl]

namespace Hoisted

lemma referring (h : Hoisted b b') (hb : b.Referring) : b'.Referring := by
  unfold Referring
  rwa [h.order, h.features]

lemma speech_eq (h : Hoisted b b') (hb : b.NoWildcards) {id} (hid : id ∈ b.allRules) :
    b'.speech id = b.speech id := by
  unfold Book.speech
  rcases h.speech id hid with hsame | ⟨ls, hold, hnew⟩
  · rw [hsame]
  · have hwild : ∀ p ∈ ls, p.1 ≠ "*" ∧ p.2 ≠ "*" := by
      have := hb.1 id hid
      unfold Book.speech at this
      rwa [hold] at this
    rw [hold, hnew, map_defaultSystem_of_ne hwild]

lemma language_ne (h : Hoisted b b') (hb : b.NoWildcards) (hp : p ∈ b'.allSystems) : p.2 ≠ "*" := by
  obtain ⟨j, hj, hp⟩ := List.mem_flatMap.1 hp
  rw [h.order] at hj
  rw [h.languages j hj] at hp
  unfold voice at hp
  split at hp
  · exact (hb.2 j hj p hp).2
  · next id ids hids =>
    have hwild := hb.1 id (mem_allRules.2 ⟨j, hj, by simp [hids]⟩)
    unfold complete at hp
    split at hp
    · obtain rfl := List.mem_singleton.1 hp
      decide
    · rw [map_defaultSystem_of_ne hwild] at hp
      exact (hwild p hp).2

/-- The known language systems are those of the routines and the defaults of their scripts. -/
lemma mem_languagePairs_iff (h : Hoisted b b') (hp : p ∈ b'.allSystems → p.2 ≠ "*") :
    p ∈ languagePairs b'.scripts ↔ b'.Knows p := by
  rw [h.scripts, mem_languagePairs_addLanguages]
  exact or_congr_left (and_iff_left_of_imp hp)

lemma picked_eq (hp : p ∈ pairs) (calls) :
    FeatureMap.picked b.systemsOf pairs p calls.zipIdx = b.callsFor p calls := by
  unfold FeatureMap.picked callsFor
  congr 1
  refine List.filter_congr fun c _ => ?_
  unfold FeatureMap.covers
  rw [Bool.eq_iff_iff, isListed_iff]
  simp only [List.contains_iff_mem.2 hp, Bool.true_and, List.any_eq_true, Bool.or_eq_true, beq_iff_eq]
  constructor
  · rintro ⟨s, hs, rfl | rfl | rfl⟩
    · exact .inl hs
    · exact .inr (.inr hs)
    · exact .inr (.inl hs)
  · rintro (hs | hs | hs)
    · exact ⟨p, hs, .inl rfl⟩
    · exact ⟨_, hs, .inr (.inr rfl)⟩
    · exact ⟨_, hs, .inr (.inl rfl)⟩

lemma get?_arranged (h : Hoisted b b') (htags : (b'.features.map (·.1)).Nodup) {f}
    (hf : f ∈ b'.features) (hp : p ∈ b'.allSystems → p.2 ≠ "*") (hknows : b'.Knows p) :
    b'.featureMap.get? ⟨f.1, p.1, p.2⟩ = FeatureMap.entry (b'.callsFor p f.2) := by
  rw [featureMap, FeatureMap.get?_putFeatures b'.systemsOf _ htags hf p, picked_eq ((h.mem_languagePairs_iff hp).2 hknows)]

end Hoisted

/-- **Features are arranged by script and language exactly when** the routines settle: every extension
is found to speak of one list of languages. -/
theorem arrangeByScripts_arranges_iff {b : Book} (h : Tidy b) (hspoken : Spoken b) (hwild : b.NoWildcards)
    (hrefs : b.Referring) (htags : (b.features.map (·.1)).Nodup) :
    (∃ m b', Act.arrangeByScripts.on b = (.ok m, b') ∧ Arranged b' m) ↔ b.Settles b.order := by
  obtain ⟨hends, hendless⟩ := Act.arrangeByScripts_on h hspoken hrefs
  constructor
  · rintro ⟨m, b', hrun, -⟩
    refine Classical.byContradiction fun hnot => ?_
    rw [hendless hnot] at hrun
    cases hrun
  · intro hsettles
    obtain ⟨b₁, b', hvoiced, hhoisted, hrun⟩ := hends hsettles
    have hwild₁ := hvoiced.noWildcards hwild
    refine ⟨_, b', hrun, ?_, hhoisted.referring (hvoiced.referring hrefs), fun f hf p hp => ?_⟩
    · intro j hj id hid
      rw [hhoisted.order] at hj
      rw [hhoisted.ruleIds] at hid
      have hall : id ∈ b₁.allRules := Book.mem_allRules.2 ⟨j, hj, hid⟩
      rw [hhoisted.languages j hj, hhoisted.speech_eq hwild₁ hall]
      unfold Book.voice
      split
      · next hempty => simp [hempty] at hid
      · next first ids hids => rw [hvoiced.oneSpeech j hj first (by simp [hids]) id hid]
    · have tags : (b'.features.map (·.1)).Nodup := by rwa [hhoisted.features, hvoiced.tags]
      exact hhoisted.get?_arranged tags hf (hhoisted.language_ne hwild₁) hp

section Sample

def localRules : List Rule :=
  [some (.pairs [("grek", "ELL ")]), some (.pairs [("latn", "ESP ")]), none].map fun languages =>
    { body := .substitution { input := some [["question"]], replacement := some [["questiondown"]] }, languages }

/-- A routine for several languages, and behind it an extension that holds it. -/
def localBook : Book :=
  { routines := #[{ name := some "local", content := .rules [0, 1, 2] },
      { name := some "outer", content := .extension [0] }]
    rules := localRules.toArray
    order := [0, 1]
    features := [("locl", [.ref ⟨some (some "local"), some 0⟩, .ref ⟨some (some "outer"), some 1⟩])] }

/-- The extension alone. -/
def outerBook : Book :=
  { localBook with
    order := [1]
    features := [("locl", [.ref ⟨some (some "outer"), some 1⟩])] }

lemma Spoken.of_checks
    (hrules : ∀ id ∈ b.allRules, b.speech id = .pairs (b.speech id).listed ∧ ("*", "*") ∉ (b.speech id).listed)
    (hroutines : ∀ j ∈ b.order, (b.routine j).languages = .pairs (b.routine j).languages.listed)
    (hgroups : ∀ r ∈ b.rules, r.languageGroup = none) : Spoken b := by
  refine ⟨fun id hid => ⟨_, hrules id hid⟩, fun j hj => ⟨_, hroutines j hj⟩, fun id id' g hid _ => ?_⟩
  rw [forall_rule hgroups rfl id] at hid
  cases hid

lemma Book.Referring.of_checks
    (h : ∀ f ∈ b.features, ∀ l ∈ f.2, ∃ j ∈ b.order, l = .ref ⟨some (b.routine j).name, some j⟩) : b.Referring := by
  intro f hf l hl
  obtain ⟨j, hj, rfl⟩ := h f hf l hl
  exact ⟨_, j, hj, rfl⟩

theorem arrangeByScripts_arranges_local : ∃ m b', Act.arrangeByScripts.on localBook = (.ok m, b') ∧ Arranged b' m := by
  have tidy : Tidy localBook := .of_checks (by decide : OneExtension _ 1) (by decide) (by decide)
  have settles : localBook.Settles localBook.order := by
    refine ⟨?_, fun _ => by decide, trivial⟩
    rintro ⟨rs, hrs⟩
    cases hrs
  exact (arrangeByScripts_arranges_iff tidy (.of_checks (by decide) (by decide) (by decide)) (by decide)
    (.of_checks (by decide)) (by decide)).2 settles

/-- **A mixed extension alone is never arranged**: the run by language does not get past its copies. -/
theorem arrangeByScripts_mixed_extension :
    (Tidy outerBook ∧ Spoken outerBook ∧ outerBook.NoWildcards ∧ outerBook.Referring ∧
      (outerBook.features.map (·.1)).Nodup) ∧
      loop (Act.visit Act.splitByLanguage) 0 outerBook = none ∧
      Act.arrangeByScripts.on outerBook = (.error .unfinished, outerBook) := by
  have tidy : Tidy outerBook := .of_checks (by decide : OneExtension _ 1) (by decide) (by decide)
  have spoken : Spoken outerBook := .of_checks (by decide) (by decide) (by decide)
  have refs : outerBook.Referring := .of_checks (by decide)
  have mixed : ¬outerBook.OneSpeech 1 := by decide
  have endless := Act.splitByLanguage_endless tidy spoken.listing (n := 0) rfl ⟨_, rfl⟩ mixed
  refine ⟨⟨tidy, spoken, by decide, refs, by decide⟩, endless, ?_⟩
  exact (Act.arrangeByScripts_on tidy spoken refs).2 fun settles => mixed (settles.1 ⟨_, rfl⟩)

end Sample

end GlyphRules
