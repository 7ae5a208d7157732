import Mathlib.Data.List.Chain
import GlyphRules.Proofs.Shaping.Sweep

/-! Glyphs that are deleted.

A deletion brings the next glyph to the place of the deleted one, and the sweep moves on all the
same: that glyph is passed over (`thinned`). So a deletion leaves every second glyph of a run that it
is to delete, and deletes all exactly where no two stand side by side. -/
namespace GlyphRules.Shaping

open Step List Rewrite Shape

variable {slot : Slot} {s start : Session} {done rest : List String} {stage : Option Stage} {g : String}

def deleting (slot : Slot) : Substitution := { input := some [slot], replacement := some [] }

/-- A rule that puts nothing for the glyphs of a slot. -/
def deletion (slot : Slot) : Rule := .ofBody (.substitution (deleting slot))

/-- What is left when the glyph behind each deleted one is passed over. -/
def thinned (slot : Slot) : List String → List String
  | [] => []
  | g :: rest => if g ∈ slot then rest.take 1 ++ thinned slot (rest.drop 1) else g :: thinned slot rest
termination_by glyphs => glyphs.length

lemma thinned_eq_filter_iff (slot) (glyphs) :
    thinned slot glyphs = glyphs.filter (· ∉ slot) ↔ glyphs.IsChain fun g g' => g ∈ slot → g' ∉ slot := by
  fun_induction thinned slot glyphs with
  | case1 => simp
  | case2 g rest hg ih =>
    cases rest with
    | nil => simp [thinned, hg]
    | cons g' rest =>
      by_cases hg' : g' ∈ slot
      · refine iff_of_false (fun h => ?_) fun h => (isChain_cons_cons.1 h).1 hg hg'
        have kept : g' ∈ (g :: g' :: rest).filter (· ∉ slot) := h ▸ mem_cons_self ..
        simp [hg'] at kept
      · simpa [hg, hg', isChain_cons] using ih
  | case3 g rest hg ih => simpa [hg, isChain_cons] using ih

section
variable (classes : Classes) {id : RoutineId} {routine : Routine} {rule : RuleId} (hstage : stage ≠ some .pos)
  (hrule : start.book.rule rule = deletion slot) (hslot : Unclassed [slot])
include hstage hrule hslot

/-- The place moves on by one glyph, whether the one that stood there is deleted or not. -/
lemma tryAt_deletion (hs : Stands start s done (g :: rest)) :
    ∃ t, (tryAt classes stage id routine done.length [rule]).on s = (.ok 0, t) ∧
      if g ∈ slot then Stands start t (done ++ rest.take 1) (rest.drop 1) else Stands start t (done ++ [g]) rest := by
  have text b : ∃ text, Feature.ruleText b (deletion slot) = .ok text := by
    have named := Feature.slotRef_named fun h => hslot slot (mem_singleton_self _) nameless h (by decide)
    exact Feature.Written.text ⟨⟨_, by rw [Feature.Statement.render]⟩,
      by simpa [Feature.Statement.lacksName, deleting] using named⟩
  obtain ⟨u, stands, hbits, htry⟩ := tryAt_reads classes stage id routine rule []
    (hrule ▸ skips_substitution rfl hstage s)
    (hrule ▸ ⟨rfl, forall_mem_nil _, hslot, forall_mem_nil _, by rintro _ ⟨⟩⟩) (hrule ▸ rfl)
    (fun u _ => hrule ▸ write_text text u) hs
  have fits : (ofRule (deletion slot)).fitsBetween done (g :: rest) = decide (g ∈ slot) := by
    simp [fitsBetween, ofRule, deletion, deleting, Rule.ofBody, Rule.before, Rule.after, Rule.input, fills]
  rw [htry, hrule, fits]
  by_cases hg : g ∈ slot
  · obtain ⟨v, quiet, applied⟩ := applyAt_ready classes id rule done.length (write_text text u)
    have found := stands.quiet quiet
    obtain ⟨w, hw, rewritten⟩ := substitute_row classes (rfl : (deleting slot).input = some [slot]) rfl (by simp)
      (.inl rfl) Nat.one_pos (by simp) (forall_mem_nil _) found.whole found.spells
    have left : Holds start w (done ++ rest.take 1 ++ rest.drop 1) := by
      rw [append_assoc, take_append_drop]
      simpa using found.holds.rewritten ((substitute_sameRules _ _ _).of_on hw) rewritten
    obtain ⟨t, ht, hleft⟩ := applied hw left (by rw [rewritten.flags, quiet.buffer, hbits])
    exact ⟨t, by simpa [hg] using ht, by simpa [hg] using hleft⟩
  · refine ⟨u, by simp [hg]; rfl, ?_⟩
    rw [if_neg hg]
    exact Holds.stands (by simpa using stands.holds) stands.whole

lemma loop_deletion (hs : Stands start s done rest) :
    ∃ t, loop (pass classes stage id routine [rule]) done.length s = some (.ok (), t) ∧
      Spells t.buffer.items (done ++ thinned slot rest) := by
  fun_induction thinned slot rest generalizing s done with
  | case1 => exact ⟨s, loop_stop (pass_stop classes stage id routine _ hs (Nat.le_refl _)), hs.spells⟩
  | case2 g rest hg ih =>
    obtain ⟨t, ht, hleft⟩ := tryAt_deletion classes hstage hrule hslot hs
    rw [loop_next (pass_moves hs (cons_ne_nil _ _) ht rfl)]
    rw [if_pos hg] at hleft
    cases rest with
    | nil =>
      exact ⟨t, loop_stop (pass_stop classes stage id routine _ hleft (by simp)), by simpa [thinned] using hleft.all⟩
    | cons => simpa using ih hleft
  | case3 g rest hg ih =>
    obtain ⟨t, ht, hleft⟩ := tryAt_deletion classes hstage hrule hslot hs
    rw [loop_next (pass_moves hs (cons_ne_nil _ _) ht rfl)]
    rw [if_neg hg] at hleft
    simpa using ih hleft

end

/-- **A deletion deletes all of its glyphs exactly where no two of them stand side by side**: the glyph behind
a deleted one is passed over. -/
theorem applyRoutine_deletes_iff (classes : Classes) {feature : Option String} {id : RoutineId}
    {glyphs : List String} (hstage : stage ≠ some .pos) (hrules : s.book.rulesOf id = [deletion slot])
    (hslot : Unclassed [slot]) (hroutine : (s.book.routine id).flags.counts = false)
    (hglyphs : Spells s.buffer.items glyphs)
    (hclear : Unmasked s feature) :
    ∃ t, (applyRoutine classes stage feature id).on s = (.ok (), t) ∧
      Spells t.buffer.items (thinned slot glyphs) ∧ (thinned slot glyphs = glyphs.filter (· ∉ slot) ↔
        glyphs.IsChain fun g g' => g ∈ slot → g' ∉ slot) := by
  obtain ⟨rule, hids, hrule⟩ := map_eq_singleton_iff.1 hrules
  obtain ⟨u, hu, stands⟩ := enter_clear hroutine hglyphs hclear
  obtain ⟨t, ht, hleft⟩ := loop_deletion classes hstage hrule hslot stands
  exact ⟨t, applyRoutine_on hu (hids ▸ ht), hleft, thinned_eq_filter_iff slot glyphs⟩

/-- Of two glyphs side by side the second is left. -/
theorem applyRoutine_deletes_first : ∃ t,
    (applyRoutine [] none none 0).on (sampleSession [deleting ["a"]] ["a", "b", "a", "a"]) = (.ok (), t) ∧
      Spells t.buffer.items ["b", "a"] := by
  obtain ⟨t, ht, hleft, -⟩ := @applyRoutine_deletes_iff ["a"] (sampleSession [deleting ["a"]] ["a", "b", "a", "a"]) none
    [] none 0 ["a", "b", "a", "a"] none_ne_pos rfl (by decide) rfl rfl (by rintro f - (hf | hf) <;> cases hf)
  exact ⟨t, ht, hleft.trans (by cbv)⟩

end GlyphRules.Shaping
