import GlyphRules.Shaping.Shaper
import GlyphRules.Proofs.Book.Arrangement

/-! Routines chosen for a script and a language.

In the arrangement of the features a routine for a default speaks for all that the default covers.
Shaping wants the very language system of the buffer, and asks for it only where several are known.
`forLanguage_lists_iff` says where this makes no difference. -/
namespace GlyphRules

open Step Shaping List Shape Lookup Book Act FeatureMap

variable {j : RoutineId} {p : LanguageSystem} {b b' book : Book}

/-! ### Rules and routines of the same languages -/

def Book.SameLanguages (b : Book) : Prop :=
  ∀ j ∈ b.order, ∀ id ∈ b.ruleIds j, b.speech id = (b.routine j).languages

namespace Book.SameLanguages

section
variable (h : b.SameLanguages)
include h

lemma oneSpeech (hj : j ∈ b.order) : b.OneSpeech j :=
  fun id hid id' hid' => (h j hj id hid).trans (h j hj id' hid').symm

lemma voice_cases (hj : j ∈ b.order) :
    b.voice j = (b.routine j).languages.listed ∨ b.voice j = complete (b.routine j).languages.listed := by
  unfold voice
  split
  · exact .inl rfl
  · next id ids hids =>
    rw [h j hj id (by simp [hids])]
    exact .inr rfl

lemma routineSystems (hspoken : Spoken b) (hj : j ∈ b.order) :
    b.routineSystems j = .ok (b.routine j).languages.listed := by
  obtain ⟨ls, hls⟩ := hspoken.routines j hj
  unfold Book.routineSystems
  simp only [hls]
  by_cases hempty : ls = []
  · have silent : (b.rulesOf j).mapM Rule.systems = .ok ((b.rulesOf j).map fun _ => []) := by
      refine mapM_ok fun r hr => ?_
      obtain ⟨id, hid, rfl⟩ := mem_map.1 hr
      have speech := h j hj id hid
      rw [hls, hempty] at speech
      unfold Rule.systems
      rcases languages_of_speech speech with hlanguages | ⟨hlanguages, -⟩
      · rw [hlanguages]
        rfl
      · rw [hlanguages]
    rw [hempty, silent]
    simp [Languages.isEmpty, Languages.listed]
  · have hne : (Languages.pairs ls).isEmpty = false := by simpa [Languages.isEmpty] using hempty
    rw [hne]
    rfl

lemma hoistLanguages_on (hspoken : Spoken b) :
    hoistLanguages.on b = (.ok (), { b with scripts := b.allSystems.foldl addLanguage [] }) := by
  have collect : b.collectLanguages = .ok (b.allSystems.foldl addLanguage []) := by
    rw [collectLanguages, mapM_ok fun j hj => h.routineSystems hspoken hj]
    rfl
  rw [hoistLanguages, on_get_bind, collect]
  rfl

end

end Book.SameLanguages

namespace Shaping

/-! ### The choice made for shaping -/

/-- One language at most is known. -/
def undivided : List (String × List String) → Bool
  | [] => true
  | [(_, languages)] => languages.length < 2
  | _ => false

/-- Whether shaping a buffer tells routines apart by language. -/
def tellsApart (buffer : Buffer) (scripts : List (String × List String)) : Bool :=
  Shape.isGiven buffer.script && !undivided scripts

def systemOf (buffer : Buffer) : LanguageSystem :=
  (scriptTag buffer.script, if Shape.isGiven buffer.language then buffer.language.getD "" else "dflt")

/-- Whether routines have to name the language system of the buffer: its script is known, and it is not
the default of all scripts. -/
def asksByName (buffer : Buffer) (scripts : List (String × List String)) : Bool :=
  Dict.has scripts (systemOf buffer).1 && systemOf buffer != ("DFLT", "dflt")

/-- Whether shaping keeps a routine with these languages. -/
def keeps (buffer : Buffer) (scripts : List (String × List String)) (ls : List LanguageSystem) : Bool :=
  if tellsApart buffer scripts then
    if asksByName buffer scripts then ls.contains (systemOf buffer)
    else ls.isEmpty || ls.contains ("DFLT", (systemOf buffer).2)
  else true

lemma filterM_ok {f : α → Except Fault Bool} {g} {l : List α}
    (h : ∀ a ∈ l, f a = .ok (g a)) : l.filterM f = .ok (l.filter g) := by
  have from_ acc : l.filterAuxM f acc = .ok ((l.filter g).reverse ++ acc) := by
    induction l generalizing acc with
    | nil => rfl
    | cons a l ih =>
      rw [List.filterAuxM, h a (.head _), ok_bind, ih fun a ha => h a (.tail _ ha)]
      cases hg : g a <;> simp [hg]
  rw [List.filterM, from_]
  simp

lemma forLanguage_eq (buffer) {rs}
    (h : ∀ r ∈ rs, (book.routine r).languages = .pairs (book.routine r).languages.listed) :
    forLanguage buffer book rs =
      .ok (rs.filter fun r => keeps buffer book.scripts (book.routine r).languages.listed) := by
  have systems (r) (hr : r ∈ rs) : (book.routine r).languages.systems? = .ok (book.routine r).languages.listed := by
    rw [h r hr]
    rfl
  have opened : forLanguage buffer book rs = if !isGiven buffer.script || undivided book.scripts then .ok rs
      else if asksByName buffer book.scripts then
        rs.filterM fun r => do return (← (book.routine r).languages.systems?).contains (systemOf buffer)
      else rs.filterM fun r => do
        let l ← (book.routine r).languages.systems?
        return l.isEmpty || l.contains ("DFLT", (systemOf buffer).2) := rfl
  have choice : tellsApart buffer book.scripts = !(!isGiven buffer.script || undivided book.scripts) := by
    unfold tellsApart
    cases isGiven buffer.script <;> rfl
  rw [opened]
  unfold keeps
  rw [choice]
  split
  · next hall => simp [hall]
  · next hsome =>
    simp only [hsome]
    split
    all_goals
      refine filterM_ok fun r hr => ?_
      rw [systems r hr]
      rfl

/-! ### The two choices compared -/

lemma filter_eq_filter_iff {α : Type} {p q} {l : List α} :
    l.filter p = l.filter q ↔ ∀ a ∈ l, p a = q a := by
  constructor
  · intro h a ha
    have same : a ∈ l.filter p ↔ a ∈ l.filter q := by rw [h]
    simpa [ha] using same
  · exact filter_congr

lemma scriptTag_ne (script) : scriptTag script ≠ "*" := by
  have tags : ∀ e ∈ scriptTags, e.2 ≠ "*" := by decide +kernel
  unfold scriptTag
  cases script with
  | none => decide
  | some s =>
    cases hfind : scriptTags.find? (·.1 == s) with
    | none => simp [hfind]
    | some e => simpa [hfind] using tags e (mem_of_find?_eq_some hfind)

lemma systemOf_language_ne {buffer} (h : buffer.language ≠ some "*") : (systemOf buffer).2 ≠ "*" := by
  unfold systemOf
  split
  · intro hwild
    cases hlanguage : buffer.language with
    | none => simp [hlanguage] at hwild
    | some l =>
      rw [hlanguage] at hwild
      exact h (hlanguage.trans (congrArg some hwild))
  · show "dflt" ≠ "*"
    decide

/-- What makes the two choices agree on a routine that has the first languages and ends with the
second. Where shaping tells routines apart, those that are listed have to name the language system of the
buffer; only where they need not be asked by name it is enough to name none, and there a routine
that ends without languages is kept and not listed. Where shaping does not tell routines apart, each
has to be listed. -/
def Agrees (buffer : Buffer) (scripts : List (String × List String)) (ls voice : List LanguageSystem) : Prop :=
  if tellsApart buffer scripts then
    if asksByName buffer scripts then isListed (systemOf buffer) voice → systemOf buffer ∈ ls
    else voice ≠ [] ∧ (isListed (systemOf buffer) voice → ls = [] ∨ systemOf buffer ∈ ls)
  else isListed (systemOf buffer) voice

/-- The two choices agree on a routine exactly if `Agrees` says so. -/
lemma keeps_eq_isListed_iff {buffer} {scripts}
    (hlanguage : (systemOf buffer).2 ≠ "*")
    (hdefault : asksByName buffer scripts = false → (systemOf buffer).1 = "DFLT")
    {ls voice} (hvoice : voice = ls ∨ voice = complete ls) :
    keeps buffer scripts ls = isListed (systemOf buffer) voice ↔ Agrees buffer scripts ls voice := by
  -- A language system without wildcards is among the languages that a routine ends with if the routine names it.
  have named (hp : systemOf buffer ∈ ls) : isListed (systemOf buffer) voice = true := by
    refine isListed_iff.2 (.inl ?_)
    rcases hvoice with rfl | rfl
    · exact hp
    · have same : defaultSystem (systemOf buffer) = systemOf buffer := by
        unfold defaultSystem
        simp [show (systemOf buffer).1 ≠ "*" from scriptTag_ne _, hlanguage]
      rw [complete, if_neg (ne_nil_of_mem hp), ← same]
      exact mem_map_of_mem hp
  unfold keeps Agrees
  rw [Bool.eq_iff_iff]
  cases tellsApart buffer scripts with
  | false => simp
  | true =>
    cases hasks : asksByName buffer scripts with
    | true =>
      simp only [if_true, contains_iff_mem]
      exact ⟨fun h => h.2, fun h => ⟨named, h⟩⟩
    | false =>
      have own : ("DFLT", (systemOf buffer).2) = systemOf buffer := by rw [← hdefault hasks]
      simp only [if_true, Bool.false_eq_true, if_false, own, Bool.or_eq_true, List.isEmpty_iff, List.contains_iff_mem]
      refine ⟨fun h => ⟨?_, h.2⟩, fun h => ⟨?_, h.2⟩⟩
      · rintro rfl
        have hempty : ls = [] := hvoice.elim Eq.symm fun h => absurd h.symm (complete_ne_nil ls)
        cases h.1 (.inl hempty)
      · rintro (rfl | hp)
        · have hall : voice = [("DFLT", "dflt")] := hvoice.resolve_left h.1
          simp [hall, isListed_iff]
        · exact named hp

end Shaping

/-! ### Routines listed for a language system -/

namespace Hoisted

section
variable (h : Hoisted b b')
include h

lemma knows_of_get? (hrefs : b'.Referring) (htags : (b'.features.map (·.1)).Nodup)
    {f} (hf : f ∈ b'.features) (hp : p.2 ≠ "*") {cs}
    (hcs : b'.featureMap.get? ⟨f.1, p.1, p.2⟩ = some cs) : b'.Knows p := by
  rw [featureMap, get?_putFeatures b'.systemsOf _ htags hf p] at hcs
  obtain ⟨c, hc⟩ := exists_mem_of_ne_nil _ (entry_eq_some.1 hcs).1
  obtain ⟨⟨l, n⟩, hl, rfl⟩ := mem_map.1 hc
  obtain ⟨hmem, hany⟩ := mem_filter.1 hl
  obtain ⟨s, hs, hcovers⟩ := any_eq_true.1 hany
  obtain ⟨name, j, hj, rfl⟩ := hrefs f hf l (fst_mem_of_mem_zipIdx hmem)
  rw [covers, Bool.or_eq_true, beq_iff_eq, Bool.and_eq_true, contains_iff_mem] at hcovers
  rcases hcovers with rfl | ⟨hpairs, -⟩
  · exact .inl (mem_flatMap.2 ⟨j, hj, hs⟩)
  · exact (h.mem_languagePairs_iff fun _ => hp).1 hpairs

lemma routines_callsFor {rs : List RoutineId}
    (hrs : calls.map routine? = rs.map some) (horder : ∀ r ∈ rs, r ∈ b.order) (p) :
    (b'.callsFor p calls).map (·.2.routine?) = (rs.filter fun r => isListed p (b.voice r)).map some := by
  let listed (r : Option RoutineId) : Bool := isListed p (r.elim [] fun j => (b'.routine j).languages.listed)
  have voices : ∀ r ∈ rs, (listed ∘ some) r = isListed p (b.voice r) := by
    intro r hr
    show isListed p (b'.routine r).languages.listed = _
    rw [h.languages r (horder r hr)]
    rfl
  have places : (b'.callsFor p calls).map (·.2.routine?) =
      ((calls.zipIdx.filter ((listed ∘ routine?) ∘ Prod.fst)).map Prod.fst).map routine? := by
    rw [callsFor, map_map, map_map]
    rfl
  calc (b'.callsFor p calls).map (·.2.routine?)
      = (calls.filter (listed ∘ routine?)).map routine? := by
        rw [places, ← filter_map, zipIdx_map_fst]
    _ = (calls.map routine?).filter listed := filter_map.symm
    _ = (rs.filter (listed ∘ some)).map some := by rw [hrs, filter_map]
    _ = (rs.filter fun r => isListed p (b.voice r)).map some := by rw [filter_congr voices]

/-- Where the script of a known language system is not known before, it is the default one: some routine names no
language, or every script. -/
lemma script_of_unknown (hsame : b.SameLanguages) (hp : b'.Knows p)
    (hnot : Dict.has (b.allSystems.foldl addLanguage []) p.1 = false) : p.1 = "DFLT" := by
  obtain ⟨l, hl⟩ : ∃ l, (p.1, l) ∈ b'.allSystems := by
    rcases hp with hp | ⟨-, hp⟩
    · exact ⟨p.2, hp⟩
    · exact hp
  obtain ⟨j, hj, hl⟩ := mem_flatMap.1 hl
  rw [h.order] at hj
  rw [h.languages j hj] at hl
  have unnamed q (hq : q ∈ (b.routine j).languages.listed) : p.1 ≠ q.1 := by
    intro hscript
    rw [Dict.has_eq_isSome, Bool.eq_false_iff, Ne, (languagesOf_addLanguages b.allSystems).2 p.1 |>.1] at hnot
    exact hnot ⟨q.2, hscript ▸ mem_flatMap.2 ⟨j, hj, hq⟩⟩
  rcases hsame.voice_cases hj with hvoice | hvoice
  · rw [hvoice] at hl
    exact absurd rfl (unnamed (p.1, l) hl)
  · rw [hvoice] at hl
    unfold complete at hl
    split at hl
    · exact congrArg Prod.fst (mem_singleton.1 hl)
    · obtain ⟨q, hq, heq⟩ := mem_map.1 hl
      unfold defaultSystem at heq
      split at heq
      · exact (congrArg Prod.fst heq).symm
      · split at heq <;> exact absurd (congrArg Prod.fst heq).symm (unnamed q hq)

end

end Hoisted

lemma Book.routines_of_calls {calls : List Lookup}
    (h : ∀ l ∈ calls, ∃ name j, j ∈ b.order ∧ l = .ref ⟨name, some j⟩) :
    ∃ rs, calls.mapM routineOf = .ok rs ∧ calls.map routine? = rs.map some ∧ ∀ r ∈ rs, r ∈ b.order := by
  induction calls with
  | nil => exact ⟨[], rfl, rfl, by simp⟩
  | cons l calls ih =>
    obtain ⟨name, j, hj, rfl⟩ := h l (.head _)
    obtain ⟨rs, hmap, hrs, horder⟩ := ih fun l hl => h l (.tail _ hl)
    refine ⟨j :: rs, ?_, ?_, ?_⟩
    · rw [mapM_cons, hmap]
      rfl
    · rw [map_cons, hrs]
      rfl
    · exact forall_mem_cons.2 ⟨hj, horder⟩

namespace Voiced

lemma voice_eq (h : Voiced b b') (hunsplit : Unsplit b b') (hj : j ∈ b.order) : b'.voice j = b.voice j := by
  unfold voice
  rw [hunsplit.ruleIds j hj, hunsplit.languages j hj]
  simp only [h.speech_eq]

lemma sameLanguages (h : Voiced b b') (hunsplit : Unsplit b b') (hb : b.SameLanguages) : b'.SameLanguages := by
  intro j hj id hid
  rw [hunsplit.order] at hj
  rw [hunsplit.ruleIds j hj] at hid
  rw [h.speech_eq, hunsplit.languages j hj]
  exact hb j hj id hid

end Voiced

lemma Unsplit.allSystems (h : Unsplit b b') : b'.allSystems = b.allSystems := by
  rw [Book.allSystems, h.order, flatMap_def]
  refine congrArg List.flatten (map_congr_left fun j hj => ?_)
  rw [h.languages j hj]

lemma Unsplit.feature (h : Unsplit b b') {f} (hf : f ∈ b.features) :
    ∃ f' ∈ b'.features, f'.1 = f.1 ∧ f'.2.map routine? = f.2.map routine? := by
  have hmem : (f.1, f.2.map routine?) ∈ b'.called := h.called ▸ mem_map_of_mem hf
  obtain ⟨f', hf', heq⟩ := mem_map.1 hmem
  obtain ⟨htag, hcalls⟩ := Prod.mk.inj heq
  exact ⟨f', hf', htag, hcalls⟩

lemma Act.arrangeByScripts_routines (h : Tidy b) (hspoken : Spoken b) (hsame : b.SameLanguages)
    (hrefs : b.Referring) (htags : (b.features.map (·.1)).Nodup) :
    ∃ m b', arrangeByScripts.on b = (.ok m, b') ∧ ∀ f ∈ b.features, ∀ rs : List RoutineId,
      f.2.map routine? = rs.map some → (∀ r ∈ rs, r ∈ b.order) → ∀ p : LanguageSystem, p.2 ≠ "*" →
      ((∃ r ∈ rs, p ∈ b.voice r) → (m.get? ⟨f.1, p.1, p.2⟩).isSome) ∧ ∀ cs, m.get? ⟨f.1, p.1, p.2⟩ = some cs →
          (Dict.has (b.allSystems.foldl addLanguage []) p.1 = false → p.1 = "DFLT") ∧
            cs.map (·.2.routine?) = (rs.filter fun r => isListed p (b.voice r)).map some := by
  have hone := fun j hj => hsame.oneSpeech (j := j) hj
  obtain ⟨b₁, b', hvoiced, hhoisted, hrun⟩ :=
    (arrangeByScripts_on h hspoken hrefs).1 (settles_of_oneSpeech hone)
  have unsplit := hvoiced.unsplit hone
  refine ⟨_, b', hrun, fun f hf rs hrs horder p hp => ?_⟩
  obtain ⟨f', hf', htag, hcalls⟩ := unsplit.feature hf
  rw [← hhoisted.features] at hf'
  have htags' : (b'.features.map (·.1)).Nodup := by rwa [hhoisted.features, hvoiced.tags]
  have listed : (b'.callsFor p f'.2).map (·.2.routine?) = (rs.filter fun r => isListed p (b.voice r)).map some := by
    rw [hhoisted.routines_callsFor (hcalls.trans hrs) (fun r hr => unsplit.order ▸ horder r hr) p]
    refine congrArg _ (filter_congr fun r hr => ?_)
    rw [hvoiced.voice_eq unsplit (horder r hr)]
  rw [← htag]
  refine ⟨?_, fun cs hcs => ?_⟩
  · rintro ⟨r, hr, hvoice⟩
    have hknows : b'.Knows p := by
      refine .inl (mem_flatMap.2 ⟨r, ?_, ?_⟩)
      · rw [hhoisted.order, unsplit.order]
        exact horder r hr
      · rwa [hhoisted.languages r (unsplit.order ▸ horder r hr), hvoiced.voice_eq unsplit (horder r hr)]
    have hne : b'.callsFor p f'.2 ≠ [] := by
      intro hempty
      have hmem : r ∈ rs.filter fun r => isListed p (b.voice r) :=
        mem_filter.2 ⟨hr, isListed_iff.2 (.inl hvoice)⟩
      rw [map_eq_nil_iff.1 (listed.symm.trans (by rw [hempty]; rfl))] at hmem
      cases hmem
    rw [hhoisted.get?_arranged htags' hf' (fun _ => hp) hknows, entry_eq_some.2 ⟨hne, rfl⟩]
    rfl
  · have hknows := hhoisted.knows_of_get? (hhoisted.referring (hvoiced.referring hrefs)) htags' hf' hp hcs
    rw [hhoisted.get?_arranged htags' hf' (fun _ => hp) hknows] at hcs
    obtain ⟨-, rfl⟩ := entry_eq_some.1 hcs
    refine ⟨fun hnot => ?_, listed⟩
    rw [← unsplit.allSystems] at hnot
    exact hhoisted.script_of_unknown (hvoiced.sameLanguages unsplit hsame) hknows hnot

/-- **Shaping keeps the routines that are listed for the language system of the buffer exactly when** `Agrees`
holds of each routine of the feature. -/
theorem forLanguage_lists_iff {b : Book} (h : Tidy b) (hspoken : Spoken b) (hsame : b.SameLanguages)
    (hrefs : b.Referring) (htags : (b.features.map (·.1)).Nodup) :
    ∃ m b' s, Act.arrangeByScripts.on b = (.ok m, b') ∧ Act.hoistLanguages.on b = (.ok (), s) ∧
      ∀ f ∈ b.features, ∀ buffer, buffer.language ≠ some "*" → ∀ cs,
        m.get? ⟨f.1, (systemOf buffer).1, (systemOf buffer).2⟩ = some cs →
        ∃ rs kept, f.2.mapM Shape.routineOf = .ok rs ∧ Shape.forLanguage buffer s rs = .ok kept ∧
          (kept.map some = cs.map (·.2.routine?) ↔
            ∀ r ∈ rs, Agrees buffer s.scripts (b.routine r).languages.listed (b.voice r)) := by
  obtain ⟨m, b', hrun, hlists⟩ := Act.arrangeByScripts_routines h hspoken hsame hrefs htags
  refine ⟨m, b', _, hrun, hsame.hoistLanguages_on hspoken, fun f hf buffer hlanguage cs hcs => ?_⟩
  have hp : (systemOf buffer).2 ≠ "*" := systemOf_language_ne hlanguage
  obtain ⟨rs, hmap, hrs, horder⟩ := Book.routines_of_calls (hrefs f hf)
  obtain ⟨hunknown, hlisted⟩ := (hlists f hf rs hrs horder (systemOf buffer) hp).2 cs hcs
  have hdefault (hasks : asksByName buffer (b.allSystems.foldl addLanguage []) = false) :
      (systemOf buffer).1 = "DFLT" := by
    rcases Bool.and_eq_false_iff.1 hasks with hnot | hall
    · exact hunknown hnot
    · rw [bne_eq_false_iff_eq.1 hall]
  refine ⟨rs, _, hmap, forLanguage_eq buffer fun r hr => ?_, ?_⟩
  · obtain ⟨ls, hls⟩ := hspoken.routines r (horder r hr)
    show (b.routine r).languages = .pairs (b.routine r).languages.listed
    rw [hls]
    rfl
  · rw [hlisted, (List.map_injective_iff.2 fun _ _ => Option.some.inj).eq_iff, filter_eq_filter_iff]
    exact forall₂_congr fun r hr => keeps_eq_isListed_iff hp hdefault (hsame.voice_cases (horder r hr))

section Sample

/-- Rules for Latin, for all scripts and for Greek. -/
def nationalRules : List Rule :=
  [some (.pairs [("latn", "dflt")]), none, some (.pairs [("grek", "dflt")])].map fun languages =>
    { body := .substitution { input := some [["a"]], replacement := some [["b"]] }, languages }

/-- A routine for each of them. One feature calls them all, the other only those that name a script. -/
def nationalBook : Book :=
  { routines := #[{ name := some "latin", content := .rules [0], languages := .pairs [("latn", "dflt")] },
      { name := some "common", content := .rules [1] },
      { name := some "greek", content := .rules [2], languages := .pairs [("grek", "dflt")] }]
    rules := nationalRules.toArray
    order := [0, 1, 2]
    features :=
      [("liga", [.ref ⟨some (some "latin"), some 0⟩, .ref ⟨some (some "common"), some 1⟩,
          .ref ⟨some (some "greek"), some 2⟩]),
        ("locl", [.ref ⟨some (some "latin"), some 0⟩, .ref ⟨some (some "greek"), some 2⟩])] }

def latinBuffer : Buffer := { script := some "Latin" }

lemma nationalBook_tidy : Tidy nationalBook :=
  .of_checks (by decide : OneExtension _ 0) (by decide) (by decide)

lemma nationalBook_spoken : Spoken nationalBook := .of_checks (by decide) (by decide) (by decide)

lemma nationalBook_sameLanguages : nationalBook.SameLanguages := by
  unfold SameLanguages
  decide

theorem forLanguage_lists_local : ∃ m b' s cs kept, Act.arrangeByScripts.on nationalBook = (.ok m, b') ∧
    Act.hoistLanguages.on nationalBook = (.ok (), s) ∧ m.get? ⟨"locl", "latn", "dflt"⟩ = some cs ∧
    Shape.forLanguage latinBuffer s [0, 2] = .ok kept ∧ kept.map some = cs.map (·.2.routine?) := by
  have refs : nationalBook.Referring := .of_checks (by decide)
  have hlocl : nationalBook.features[1] ∈ nationalBook.features := List.getElem_mem _
  obtain ⟨m, b', hrun, hlists⟩ := Act.arrangeByScripts_routines nationalBook_tidy nationalBook_spoken
    nationalBook_sameLanguages refs (by decide)
  obtain ⟨m', b'', s, hrun', hhoist, hagree⟩ := forLanguage_lists_iff nationalBook_tidy nationalBook_spoken
    nationalBook_sameLanguages refs (by decide)
  obtain ⟨hm, rfl⟩ := Prod.mk.inj (hrun.symm.trans hrun')
  obtain rfl := Except.ok.inj hm
  obtain ⟨cs, hcs⟩ := Option.isSome_iff_exists.1
    ((hlists _ hlocl [0, 2] rfl (by decide) ("latn", "dflt") (by decide)).1 ⟨0, by decide, by decide⟩)
  obtain ⟨rs, kept, hrs, hkept, hiff⟩ := hagree _ hlocl latinBuffer (by decide) cs hcs
  obtain rfl : [0, 2] = rs := Except.ok.inj hrs
  refine ⟨m, b', s, cs, kept, hrun, hhoist, hcs, hkept, hiff.2 fun r hr => ?_⟩
  obtain ⟨-, rfl⟩ := Prod.mk.inj ((nationalBook_sameLanguages.hoistLanguages_on nationalBook_spoken).symm.trans hhoist)
  revert r
  unfold Agrees
  decide

/-- **A routine without languages is listed for every script and left out in shaping**: with routines for
Latin and for Greek beside it, a Latin buffer is shaped with the Latin routine alone. -/
theorem forLanguage_leaves_common :
    (Tidy nationalBook ∧ Spoken nationalBook ∧ nationalBook.SameLanguages ∧ nationalBook.Referring ∧
      (nationalBook.features.map (·.1)).Nodup) ∧
      ∃ m b' s cs, Act.arrangeByScripts.on nationalBook = (.ok m, b') ∧
        Act.hoistLanguages.on nationalBook = (.ok (), s) ∧ m.get? ⟨"liga", "latn", "dflt"⟩ = some cs ∧
        cs.map (·.2.routine?) = [some 0, some 1] ∧ Shape.forLanguage latinBuffer s [0, 1, 2] = .ok [0] := by
  have refs : nationalBook.Referring := .of_checks (by decide)
  have hliga : nationalBook.features[0] ∈ nationalBook.features := List.getElem_mem _
  obtain ⟨m, b', hrun, hlists⟩ := Act.arrangeByScripts_routines nationalBook_tidy nationalBook_spoken
    nationalBook_sameLanguages refs (by decide)
  obtain ⟨hsome, hlisted⟩ := hlists _ hliga [0, 1, 2] rfl (by decide) ("latn", "dflt") (by decide)
  obtain ⟨cs, hcs⟩ := Option.isSome_iff_exists.1 (hsome ⟨0, by decide, by decide⟩)
  refine ⟨⟨nationalBook_tidy, nationalBook_spoken, nationalBook_sameLanguages, refs, by decide⟩, m, b', _, cs, hrun,
    nationalBook_sameLanguages.hoistLanguages_on nationalBook_spoken, hcs, ?_, ?_⟩
  · rw [(hlisted cs hcs).2]
    decide
  · rfl

end Sample

end GlyphRules
