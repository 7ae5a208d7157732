import GlyphRules.Proofs.Feature.Gathering

/-! Rules that are gathered and rules that are lost.

A `Log` is kept of which blocks are open, and whether the open routine was taken out of force for
having no rules. The events of `retains` are those for which every rule that is given is in the end
in one routine in force (`foldlM_step_keeps_iff`). -/
namespace GlyphRules.Feature.Gathering

open Step List Book

/-! ### What happened so far -/

inductive Block where
  | feature (name : String)
  | lookup (routine : RoutineId)
deriving DecidableEq

structure Log where
  /-- The blocks that are open, the innermost first. -/
  blocks : List Block := []
  /-- The routine that is open, if it is that of a lookup block. -/
  latest : Option RoutineId := none
  lookups : List RoutineId := []
  /-- Whether the routine that is open was taken out of force. -/
  left : Bool := false

/-- Whether a call takes out the open routine, which stays open. -/
def leaves (s : Gathering) (name : String) : Bool :=
  s.idle?.any fun idle => s.book.routineNamed? (some name) != some idle.2

def Log.note (log : Log) (s : Gathering) : Event → Log
  | .openFeature name => { log with blocks := .feature name :: log.blocks }
  | .closeFeature => { log with blocks := log.blocks.tail, latest := none, left := false }
  | .openLookup _ _ =>
    { blocks := .lookup s.book.routines.size :: log.blocks, latest := some s.book.routines.size
      lookups := s.book.routines.size :: log.lookups }
  | .closeLookup => { log with blocks := log.blocks.tail }
  | .call name => { log with left := log.left || s.leaves name }
  | .flag _ value => if s.turns value then { log with latest := none, left := false } else log
  | _ => log

/-- An entry as it was given: the rules it stands for, those that were put in a routine for it,
and the block it stands in. -/
structure Given where
  stated : List RuleBody
  rules : List RuleId
  block : Option Block

def given (s t : Gathering) (log : Log) (spot : Spot) (entry : RuleEntry) : Given where
  stated := (s.said spot entry).toOption.getD []
  rules := List.range' s.book.rules.size (t.book.rules.size - s.book.rules.size)
  block := log.blocks.head?

def givenBy (s t : Gathering) (log : Log) : Event → List Given
  | .rule spot entry => [given s t log spot entry]
  | _ => []

def givens (s : Gathering) (log : Log) : List Event → List Given
  | [] => []
  | e :: es =>
    match s.step e with
    | .ok t => givenBy s t log e ++ givens t (log.note s e) es
    | .error _ => []

/-- Whether every event of a run is met in a fit state. -/
def along (fit : Gathering → Log → Event → Bool) (s : Gathering) (log : Log) : List Event → Bool
  | [] => true
  | e :: es => fit s log e &&
    match s.step e with
    | .ok t => along fit t (log.note s e) es
    | .error _ => true

variable {s t u : Gathering} {log : Log} {e : Event} {es : List Event} {fit : Gathering → Log → Event → Bool}

lemma along_cons (h : s.step e = .ok t) :
    along fit s log (e :: es) ↔ fit s log e ∧ along fit t (log.note s e) es = true := by
  rw [along, h, Bool.and_eq_true]

lemma givens_cons (h : s.step e = .ok t) :
    givens s log (e :: es) = givenBy s t log e ++ givens t (log.note s e) es := by
  rw [givens, h]

/-- The open routine is known, and the log says whether it is in force. -/
structure Sound (s : Gathering) (log : Log) : Prop where
  apart : Apart s.book
  known : ∀ i, s.routine = some i → i < s.book.routines.size
  left : log.left = true ↔ ∃ i, s.routine = some i ∧ i ∉ s.book.order

lemma Sound.start (hb : Apart s.book) (hr : s.routine = none) : Sound s {} :=
  ⟨hb, by simp [hr], iff_of_false Bool.false_ne_true (by simp [hr])⟩

lemma Opens.left {features} (h : Opens s t features) :
    false ↔ ∃ i, t.routine = some i ∧ i ∉ t.book.order := by
  refine ⟨fun h => (by cases h), ?_⟩
  rintro ⟨i, hi, hout⟩
  cases h.routine.symm.trans hi
  exact absurd ((h.order _).2 (.inr (mem_singleton_self _))) hout

lemma Calls.left {features} {tag} {i} (hs : Sound s log)
    (h : Calls s t features tag i) {name} (hi : s.book.routineNamed? (some name) = some i) :
    (log.left || s.leaves name) ↔ ∃ j, t.routine = some j ∧ j ∉ t.book.order := by
  have out {j} : j ∉ t.book.order ↔ (j ∉ s.book.order ∨ ∃ f, s.idle? = some (f, j)) ∧ j ≠ i := by
    rw [h.order, mem_inForce hs.apart.nodup, not_or, not_and_or]
    simp
  have leaves : s.leaves name = true ↔ ∃ f j, s.idle? = some (f, j) ∧ j ≠ i := by
    rw [Gathering.leaves, hi]
    cases s.idle? with
    | none => simp
    | some idle =>
      rw [Option.any_some, bne_iff_ne, Ne, Option.some_inj]
      refine ⟨fun hne => ⟨idle.1, idle.2, rfl, Ne.symm hne⟩, ?_⟩
      rintro ⟨f, j, hidle, hne⟩
      cases hidle
      exact Ne.symm hne
  rw [Bool.or_eq_true, hs.left, leaves, h.routine]
  constructor
  · rintro (⟨j, hj, hout⟩ | ⟨f, j, hidle, hne⟩)
    · exact ⟨j, hj, out.2 ⟨.inl hout, fun heq => hout (heq ▸ h.known)⟩⟩
    · exact ⟨j, (idle?_eq_some.1 hidle).2.1, out.2 ⟨.inr ⟨f, hidle⟩, hne⟩⟩
  · rintro ⟨j, hj, hout⟩
    obtain ⟨hout | ⟨f, hidle⟩, hne⟩ := out.1 hout
    · exact .inl ⟨j, hj, hout⟩
    · exact .inr ⟨f, j, hidle, hne⟩

lemma Does.sound (hs : Sound s log) (h : Does s t e) : Sound t (log.note s e) := by
  obtain ⟨apart, -, known⟩ := h.adds hs.apart hs.known
  have stays (h : Stays s t) : log.left = true ↔ ∃ i, t.routine = some i ∧ i ∉ t.book.order := by
    rw [h.routine, h.order, hs.left]
  refine ⟨apart, known, ?_⟩
  cases e with
  | closeFeature =>
    obtain ⟨_, -, closes⟩ := h
    simp [Log.note, closes.routine]
  | openLookup =>
    obtain ⟨_, -, opens⟩ := h
    exact opens.left
  | call name =>
    obtain ⟨_, _, i, -, -, hi, calls⟩ := h
    exact calls.left hs hi
  | flag spot value =>
    rcases h with ⟨ht, still, -⟩ | ⟨ht, _, -, opens⟩
    · simpa [Log.note, ht] using stays still
    · simpa [Log.note, ht] using opens.left
  | rule spot entry =>
    obtain ⟨o, _, _, -, -, puts, hcase⟩ := h
    have routine : t.routine = o.routine := by rw [puts.rest]
    rw [routine, puts.order]
    rcases hcase with ⟨rfl, -⟩ | ⟨hnone, opens⟩
    · exact hs.left
    · rw [← opens.left]
      show log.left = true ↔ _
      simpa [hnone] using hs.left
  | openFeature | closeLookup | script | language | foreign => exact stays h.1

lemma does_of_step (hs : Sound s log) (hu : s.understands e) (h : s.step e = .ok t) :
    (s.discards e && s.overdrawn) = false ∧ Does s t e := by
  cases hover : s.discards e && s.overdrawn with
  | true =>
    rw [Bool.and_eq_true] at hover
    obtain ⟨_, hfault⟩ := step_of_overdrawn hs.apart hu hover.1 hover.2
    cases h.symm.trans hfault
  | false =>
    obtain ⟨t', ht', does⟩ := step_does hs.apart hs.known hu hover
    cases h.symm.trans ht'
    exact ⟨rfl, does⟩

/-- A run keeps what was gathered before it. -/
lemma foldlM_step_adds (hs : Sound s log) (hu : along (fun s _ => s.understands) s log es)
    (h : es.foldlM step s = .ok u) : Apart u.book ∧ Adds s.book u.book := by
  induction es generalizing s log with
  | nil =>
    cases h
    exact ⟨hs.apart, .refl _⟩
  | cons e es ih =>
    obtain ⟨t, ht, h⟩ := bind_eq_ok.1 h
    rw [along_cons ht] at hu
    have does := (does_of_step hs hu.1 ht).2
    obtain ⟨apart, adds⟩ := ih (does.sound hs) hu.2 h
    exact ⟨apart, (does.adds hs.apart hs.known).2.1.trans adds⟩

/-! ### Rules that are kept -/

/-- Every rule of an entry is in the book as it was given, once and in a routine in force. -/
def Given.Kept (g : Given) (b : Book) : Prop :=
  g.rules.map (fun id => (b.rule id).body) = g.stated ∧ ∀ id ∈ g.rules, b.allRules.count id = 1

/-- Whether an entry stands for one rule per mark class at most. -/
def single : RuleEntry → Bool
  | .attach _ pairs => pairs.length == 1
  | _ => true

/-- An entry has to name one mark class at most, and the routine its rules go to has to be in
force. No routine is taken out of a feature that calls nothing. -/
def retains (s : Gathering) (log : Log) : Event → Bool
  | .rule spot entry => single entry && (!log.left || ((s.said spot entry).toOption.getD []).isEmpty)
  | e => !(s.discards e && s.overdrawn)

lemma allRules_count (hb : Apart b) {i} {id} (h : id ∈ b.ruleIds i) :
    b.allRules.count id = 1 ↔ i ∈ b.order := by
  have nodup : b.allRules.Nodup := nodup_flatMap.2
    ⟨fun j _ => (hb.sorted j).imp Nat.ne_of_lt, hb.nodup.imp fun hne id hj hk => hne (hb.apart hj hk)⟩
  have mem : id ∈ b.allRules ↔ i ∈ b.order := by
    rw [allRules, mem_flatMap]
    exact ⟨fun ⟨j, hj, hid⟩ => hb.apart hid h ▸ hj, fun hi => ⟨i, hi, h⟩⟩
  rw [nodup.count]
  split <;> simp_all

lemma Given.kept_iff {g : Given} {b b'} (hb : Apart b) (hb' : Apart b') (h : Adds b b')
    (hg : ∀ id ∈ g.rules, ∃ i, id ∈ b.ruleIds i) : g.Kept b' ↔ g.Kept b := by
  rw [Kept, map_congr_left fun id hid => (hg id hid).elim fun i hi => h.body id (hb.within i id hi)]
  refine and_congr_right fun _ => forall₂_congr fun id hid => ?_
  obtain ⟨i, hi⟩ := hg id hid
  have hlt := hb.within i id hi
  rw [allRules_count hb hi, allRules_count hb' ((h.ruleIds i id hlt).2 hi)]
  refine ⟨fun hin => by_contra fun hout => ?_, fun hin => h.kept i hin id hi hlt⟩
  exact h.gone i (lt_of_ruleIds (ne_nil_of_mem hi)) hout hin

lemma counted_spec {marks} {b} {entry} {all kept}
    (hall : bodies marks b entry = .ok all) (hkept : counted entry all = .ok kept) :
    (kept = all ↔ single entry) ∧ (kept = [] ↔ all = []) ∧ kept ⊆ all := by
  unfold counted at hkept
  cases entry with
  | attach bases pairs =>
    have length : pairs.length = all.length := (mapM_iff_forall₂.1 hall).length_eq
    cases hlast : all.getLast? with
    | none =>
      rw [hlast] at hkept
      cases hkept
    | some last =>
      rw [hlast] at hkept
      cases hkept
      obtain ⟨init, rfl⟩ := List.getLast?_eq_some_iff.1 hlast
      simp only [single, length]
      cases init <;> simp
  | _ =>
    cases hkept
    simp [single]

lemma Does.given {entry} (h : Does s t (.rule spot entry)) (log) :
    let g := Gathering.given s t log spot entry
    ∃ kept, s.said spot entry = .ok g.stated ∧ g.rules.map (fun id => (t.book.rule id).body) = kept ∧
      (kept = g.stated ↔ single entry) ∧ (g.rules = [] ↔ g.stated = []) ∧ kept ⊆ g.stated ∧
      ∀ id ∈ g.rules, ∃ i, t.routine = some i ∧ id ∈ t.book.ruleIds i := by
  obtain ⟨o, all, kept, hall, hkept, puts, hcase⟩ := h
  obtain ⟨o', -, hbodies⟩ := bind_eq_ok.1 hall
  obtain ⟨same, none, sub⟩ := counted_spec hbodies hkept
  have size : o.book.rules.size = s.book.rules.size := by
    rcases hcase with ⟨rfl, -⟩ | ⟨-, opens⟩
    · rfl
    · exact opens.alike.rules
  have routine : t.routine = o.routine := by rw [puts.rest]
  have stated : (Gathering.given s t log spot entry).stated = all := by
    rw [Gathering.given, hall]
    rfl
  have rules : (Gathering.given s t log spot entry).rules = List.range' o.book.rules.size kept.length := by
    show List.range' s.book.rules.size (t.book.rules.size - s.book.rules.size) = _
    rw [puts.rules, size, Nat.add_sub_cancel_left]
  intro g
  rw [stated, rules]
  refine ⟨kept, hall, puts.bodies, same, ?_, sub, fun id hid => ?_⟩
  · rwa [List.range'_eq_nil_iff, length_eq_zero_iff]
  · cases hi : o.routine with
    | none =>
      rcases hcase with ⟨rfl, hnil⟩ | ⟨-, opens⟩
      · rw [hnil hi] at hid
        cases hid
      · cases hi.symm.trans opens.routine
    | some i =>
      refine ⟨i, routine.trans hi, ?_⟩
      rw [puts.own i hi]
      exact mem_append_right _ hid

lemma overdrawn_of_retains (h : retains s log e) : (s.discards e && s.overdrawn) = false := by
  cases e with
  | rule => rfl
  | _ => exact Bool.not_eq_true' _ ▸ h

lemma kept_iff_retains (hs : Sound s log) (hover : (s.discards e && s.overdrawn) = false) (h : Does s t e) :
    (∀ g ∈ givenBy s t log e, g.Kept t.book) ↔ retains s log e = true := by
  cases e with
  | rule spot entry =>
    have sound := h.sound hs
    obtain ⟨kept, hall, hbodies, same, none, -, home⟩ := h.given log
    show (∀ g ∈ [given s t log spot entry], g.Kept t.book) ↔ (single entry && (!log.left || _)) = true
    rw [forall_mem_singleton, Given.Kept, hbodies, same, Bool.and_eq_true]
    refine and_congr_right fun _ => ?_
    rw [Bool.or_eq_true, Bool.not_eq_true', ← Bool.not_eq_true, show log.left = true ↔ _ from sound.left]
    show _ ↔ _ ∨ (given s t log spot entry).stated.isEmpty = true
    rw [List.isEmpty_iff, ← none]
    constructor
    · intro h
      refine or_iff_not_imp_right.2 fun hne => ?_
      obtain ⟨id, hid⟩ := exists_mem_of_ne_nil _ hne
      obtain ⟨i, hi, hin⟩ := home id hid
      rintro ⟨j, hj, hout⟩
      cases hi.symm.trans hj
      exact hout ((allRules_count sound.apart hin).1 (h id hid))
    · rintro (hin | hnil) id hid
      · obtain ⟨i, hi, hmem⟩ := home id hid
        exact (allRules_count sound.apart hmem).2 (by_contra fun hout => hin ⟨i, hi, hout⟩)
      · rw [hnil] at hid
        cases hid
  | _ => exact iff_of_true (fun g hg => by cases hg) (congrArg Bool.not hover)

lemma givenBy_kept_iff (hs : Sound s log) (h : Does s t e) {b} (hb : Apart b) (hadds : Adds t.book b) {g}
    (hg : g ∈ givenBy s t log e) : g.Kept b ↔ g.Kept t.book := by
  cases e with
  | rule spot entry =>
    cases mem_singleton.1 hg
    obtain ⟨_, -, -, -, -, -, home⟩ := h.given log
    exact Given.kept_iff (h.sound hs).apart hb hadds fun id hid => (home id hid).imp fun i hi => hi.2
  | _ => cases hg

lemma keeps_iff (hs : Sound s log) (hu : along (fun s _ => s.understands) s log es) :
    (∃ t, es.foldlM step s = .ok t ∧ ∀ g ∈ givens s log es, g.Kept t.book) ↔ along retains s log es = true := by
  induction es generalizing s log with
  | nil => exact iff_of_true ⟨s, rfl, fun g hg => by cases hg⟩ rfl
  | cons e es ih =>
    cases hstep : s.step e with
    | error fault =>
      have fit {fit} (h : along fit s log (e :: es) = true) : fit s log e = true := by
        rw [along, Bool.and_eq_true] at h
        exact h.1
      refine iff_of_false (fun ⟨t, ht, _⟩ => ?_) fun hr => ?_
      · rw [foldlM_cons, hstep] at ht
        cases ht
      · obtain ⟨t, ht, -⟩ := step_does hs.apart hs.known (fit hu) (overdrawn_of_retains (fit hr))
        cases hstep.symm.trans ht
    | ok t =>
      rw [along_cons hstep] at hu ⊢
      obtain ⟨hover, does⟩ := does_of_step hs hu.1 hstep
      rw [foldlM_cons, hstep, givens_cons hstep, ← kept_iff_retains hs hover does, ← ih (does.sound hs) hu.2]
      constructor
      · rintro ⟨u, hrun, hkept⟩
        obtain ⟨apart, adds⟩ := foldlM_step_adds (does.sound hs) hu.2 hrun
        refine ⟨fun g hg => ?_, u, hrun, fun g hg => hkept g (mem_append_right _ hg)⟩
        exact (givenBy_kept_iff hs does apart adds hg).1 (hkept g (mem_append_left _ hg))
      · rintro ⟨hfirst, u, hrun, hkept⟩
        obtain ⟨apart, adds⟩ := foldlM_step_adds (does.sound hs) hu.2 hrun
        refine ⟨u, hrun, fun g hg => ?_⟩
        rcases mem_append.1 hg with hg | hg
        · exact (givenBy_kept_iff hs does apart adds hg).2 (hfirst g hg)
        · exact hkept g hg

/-- A file is read and every rule it gives is kept, each in one routine in force, exactly if no
entry names several mark classes, no rule comes to a routine that a call took out of force, and no
routine is taken out of a feature that calls nothing. -/
theorem foldlM_step_keeps_iff {start : Gathering} (hbook : Apart start.book) (hopen : start.routine = none)
    {events : List Event} (hread : along (fun s _ => s.understands) start {} events = true) :
    (∃ t, events.foldlM step start = .ok t ∧ ∀ g ∈ givens start {} events, g.Kept t.book) ↔
      along retains start {} events = true :=
  keeps_iff (.start hbook hopen) hread

lemma apart_empty : Apart {} := by
  have bare (j) : (({} : Book).routine j).content = .rules [] := by
    rw [routine_of_size_le (Nat.zero_le j)]
  have ids (j) : ({} : Book).ruleIds j = [] := ruleIds_rules (bare j)
  exact ⟨nodup_nil, by simp, fun j => by rw [bare, ids], by simp [ids], by simp [ids], by simp [ids]⟩

def swap (old new : String) : RuleEntry := .single { glyphs := [.glyph old] } (.glyph new) false

/-- Two mark classes of one glyph each. -/
def accents : Gathering := { marks := [("TOP", ⟨[(⟨0, 0⟩, ["acute"])]⟩), ("BOT", ⟨[(⟨0, 0⟩, ["dot"])]⟩)] }

/-- A lookup, and a feature of its own rules under some flag. -/
def flagged (inside : List Event) : List Event :=
  [.openLookup {} "Y", .rule {} (swap "c" "d"), .closeLookup, .openFeature "mark", .flag {} 1] ++ inside ++ [.closeFeature]

/-- The attachment of marks to a base. -/
def attached (classes : List String) : Event := .rule {} (.attach (.glyph "a") (classes.map fun c => (some ⟨1, 2⟩, c)))

theorem foldlM_step_keeps_attached :
    along (fun s _ => s.understands) accents {} (flagged [attached ["TOP"], .call "Y", attached ["BOT"]]) = true ∧
      ∃ t, (flagged [attached ["TOP"], .call "Y", attached ["BOT"]]).foldlM step accents = .ok t ∧
        ∀ g ∈ givens accents {} (flagged [attached ["TOP"], .call "Y", attached ["BOT"]]), g.Kept t.book :=
  ⟨by decide +kernel, (foldlM_step_keeps_iff apart_empty rfl (by decide +kernel)).2 (by decide +kernel)⟩

/-- The file is understood, and not every rule it gives is kept. -/
def Loses (events : List Event) : Prop :=
  along (fun s _ => s.understands) accents {} events = true ∧
    ¬∃ t, events.foldlM step accents = .ok t ∧ ∀ g ∈ givens accents {} events, g.Kept t.book

lemma loses_of_not_retained (hread : along (fun s _ => s.understands) accents {} events)
    (hlost : along retains accents {} events = false) : Loses events := by
  refine ⟨hread, fun h => ?_⟩
  rw [(keeps_iff (.start apart_empty rfl) hread).1 h] at hlost
  cases hlost

/-- Of two mark classes in one entry the first is lost, and so is a rule after a call that took
out the routine which the flag had opened. -/
theorem foldlM_step_loses : Loses (flagged [attached ["TOP", "BOT"]]) ∧ Loses (flagged [.call "Y", attached ["TOP"]]) :=
  ⟨loses_of_not_retained (by decide +kernel) (by decide +kernel),
    loses_of_not_retained (by decide +kernel) (by decide +kernel)⟩

end GlyphRules.Feature.Gathering
