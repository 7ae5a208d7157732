import GlyphRules.Proofs.Step
import GlyphRules.Feature.RuleText

/-! Which substitutions can be written down.

A substitution that puts one slot for one, one for several or several for one has
a written form, provided that no glyph of it lacks its name and that it calls no
routine (`ofSubstitution_written`). -/
namespace GlyphRules

open List

variable {input output : List Slot} {s : Substitution} {indent : String} {body : List Statement}

/-- One slot for one, several for one, or one for several. A class that stands for a class
is at least as long. -/
inductive SlotShape : List Slot → List Slot → Prop
  | single {i o : Slot} (h : o.length = 1 ∨ i.length ≤ o.length) : SlotShape [i] [o]
  | ligature {input : List Slot} {o : Slot} (h : 2 ≤ input.length) : SlotShape input [o]
  | multiple {i : Slot} {output : List Slot} (h : 2 ≤ output.length) : SlotShape [i] output

lemma exists_cons_cons {α : Type} {l : List α} (h : 2 ≤ l.length) : ∃ a b rest, l = a :: b :: rest := by
  obtain ⟨a, l, rfl⟩ := exists_cons_of_length_pos (Nat.zero_lt_of_lt h)
  obtain ⟨b, rest, rfl⟩ := exists_cons_of_length_pos (Nat.lt_of_succ_lt_succ h)
  exact ⟨a, b, rest, rfl⟩

lemma SlotShape.ne_nil (h : SlotShape input output) : input ≠ [] ∧ output ≠ [] := by
  cases h with
  | single => simp
  | ligature h => exact ⟨fun he => by simp [he] at h, by simp⟩
  | multiple h => exact ⟨by simp, fun he => by simp [he] at h⟩

lemma SlotShape.output_singleton (h : SlotShape input output) (hlen : 2 ≤ input.length) : ∃ o, output = [o] := by
  cases h with
  | single | ligature => exact ⟨_, rfl⟩
  | multiple => exact absurd hlen (by simp)

instance : (input output : List Slot) → Decidable (SlotShape input output)
  | [i], [o] => decidable_of_iff (o.length = 1 ∨ i.length ≤ o.length)
      ⟨.single, fun h => by cases h with
        | single h => exact h
        | ligature h => simp at h
        | multiple h => simp at h⟩
  | _ :: _ :: _, [_] => .isTrue (.ligature (by simp))
  | [_], _ :: _ :: _ => .isTrue (.multiple (by simp))
  | [], _ => .isFalse fun h => h.ne_nil.1 rfl
  | _, [] => .isFalse fun h => h.ne_nil.2 rfl
  | _ :: _ :: _, _ :: _ :: _ => .isFalse fun h => by simpa using h.output_singleton (by simp)

namespace Feature

open Step (ok_bind bind_eq_ok)

/-! ### Statements that can be written -/

/-- A statement has a text, and a name for every glyph in it. -/
structure Written (indent : String) (s : Statement) : Prop where
  renders : ∃ t, s.render indent = .ok t
  named : s.lacksName = false

lemma Written.text {s} (h : Written "" s) : ∃ t, s.text = .ok t := by
  obtain ⟨t, ht⟩ := h.renders
  refine ⟨sortCursive t, ?_⟩
  rw [Statement.text, ht, h.named]
  rfl

lemma renderAll_ok (h : ∀ s ∈ body, Written indent s) : ∃ ts, renderAll indent body = .ok ts := by
  induction body with
  | nil => exact ⟨[], by simp [renderAll]⟩
  | cons s rest ih =>
    obtain ⟨t, ht⟩ := (h s (.head _)).renders
    obtain ⟨ts, hts⟩ := ih fun s hs => h s (.tail _ hs)
    refine ⟨t :: ts, ?_⟩
    rw [renderAll, ht, hts]
    rfl

lemma anyLacksName_eq_false (h : ∀ s ∈ body, Written indent s) : anyLacksName body = false := by
  induction body with
  | nil => simp [anyLacksName]
  | cons s rest ih =>
    rw [anyLacksName, (h s (.head _)).named]
    exact ih fun s hs => h s (.tail _ hs)

lemma written_block (h : ∀ s ∈ body, Written (indent ++ "    ") s) : Written indent (.block body) := by
  refine ⟨?_, by simp only [Statement.lacksName, anyLacksName_eq_false h]⟩
  obtain ⟨ts, hts⟩ := renderAll_ok h
  rw [Statement.render, renderBody, hts]
  exact ⟨_, rfl⟩

/-! ### Slots with names -/

def Named (slots : List Slot) : Prop := ∀ slot ∈ slots, slot ≠ [] ∧ nameless ∉ slot

lemma slotRef_named (h : nameless ∉ slot) : (slotRef slot).lacksName = false := by
  unfold slotRef
  split
  · next g =>
    simp only [GlyphRef.lacksName, beq_eq_false_iff_ne]
    intro hg
    exact h (by simp [hg])
  · simpa [GlyphRef.lacksName] using h

lemma Named.slotRefs (h : Named slots) : (slots.map slotRef).any GlyphRef.lacksName = false := by
  rw [any_eq_false]
  intro g hg
  obtain ⟨slot, hslot, rfl⟩ := mem_map.1 hg
  simp [slotRef_named (h slot hslot).2]

lemma nameless_ne_empty : "" ≠ nameless := by decide

lemma Named.row_ne (h : Named slots) {n} {g} (hg : g ∈ row slots n) :
    g ≠ nameless := by
  obtain ⟨slot, hslot, rfl⟩ := mem_map.1 hg
  have hnone := (h slot hslot).2
  split
  · next g =>
    intro hg
    exact hnone (by simp [hg])
  · rw [getD_eq_getElem?_getD]
    cases hn : slot[n]? with
    | none => exact nameless_ne_empty
    | some g =>
      intro hg
      exact hnone (hg ▸ mem_of_getElem? hn)

/-! ### Classes that go together -/

lemma pairedLigatures_written (indent) (hbefore : Named s.before) (hafter : Named s.after)
    (hinput : Named input) (houtput : Named output) : ∀ st ∈ pairedLigatures s input output, Written indent st := by
  intro st hst
  obtain ⟨n, -, rfl⟩ := mem_map.1 hst
  refine ⟨⟨_, by rw [Statement.render]⟩, ?_⟩
  have names : ((row input n).map GlyphRef.name).any GlyphRef.lacksName = false := by
    rw [any_eq_false]
    intro g hg
    obtain ⟨name, hname, rfl⟩ := mem_map.1 hg
    simp [GlyphRef.lacksName, hinput.row_ne hname]
  have first : (GlyphRef.name ((row output n).headD "")).lacksName = false := by
    rw [GlyphRef.lacksName, beq_eq_false_iff_ne]
    cases hrow : row output n with
    | nil => exact nameless_ne_empty
    | cons g _ => exact houtput.row_ne (hrow ▸ mem_cons_self ..)
  rw [Statement.lacksName, any_append, any_append, any_append, hbefore.slotRefs, names,
    hafter.slotRefs, any_cons, first]
  rfl

lemma length_eq_singles_add_classes (slots) :
    slots.length = (slots.filter (·.length == 1)).length + (classLengths slots).length := by
  induction slots with
  | nil => rfl
  | cons s rest ih =>
    unfold classLengths at ih ⊢
    by_cases h : s.length = 1
    all_goals
      simp [h] at ih ⊢
      omega

lemma paired_class (h : isPaired [i] output) (houtput : Named output) :
    ∃ n slot, output.findIdx? (·.length > 1) = some n ∧ output[n]? = some slot ∧
      slot.length = i.length ∧ (classLengths output).length = 1 := by
  unfold isPaired at h
  split at h
  · next a b ha hb =>
    have hab : a = b := by simpa using h
    have hi : i.length = a := by
      have : i.length ∈ classLengths [i] ∨ classLengths [i] = [] := by
        unfold classLengths
        by_cases hl : i.length = 1 <;> simp [hl]
      rw [ha] at this
      simpa using this
    have class_length slot (hs : slot ∈ output) (hl : 1 < slot.length) : slot.length = b := by
      have : slot.length ∈ classLengths output := by
        refine mem_filter.2 ⟨mem_map_of_mem hs, ?_⟩
        simp
        omega
      rw [hb] at this
      simpa using this
    have long : ∃ slot ∈ output, 1 < slot.length := by
      have : b ∈ classLengths output := by simp [hb]
      obtain ⟨hmem, hne⟩ := mem_filter.1 this
      obtain ⟨slot, hs, rfl⟩ := mem_map.1 hmem
      refine ⟨slot, hs, ?_⟩
      have : slot.length ≠ 0 := by simpa using (houtput slot hs).1
      have : slot.length ≠ 1 := by simpa using hne
      omega
    obtain ⟨n, hn⟩ : ∃ n, output.findIdx? (·.length > 1) = some n := by
      rw [← Option.isSome_iff_exists]
      simpa using long
    obtain ⟨hlt, hlong, -⟩ := List.findIdx?_eq_some_iff_getElem.1 hn
    refine ⟨n, output[n], hn, List.getElem?_eq_getElem hlt, ?_, by simp [hb]⟩
    rw [class_length _ (getElem_mem hlt) (by simpa using hlong), hi, hab]
  · cases h

lemma pairedMultiples_written (indent) (hpaired : isPaired [i] output)
    (hbefore : Named s.before) (hafter : Named s.after) (hinput : Named [i]) (houtput : Named output) :
    ∃ body, pairedMultiples s [i] output = .ok body ∧ ∀ st ∈ body, Written indent st := by
  obtain ⟨n, slot, hn, hslot, hlength, hclasses⟩ := paired_class hpaired houtput
  have hsingles := length_eq_singles_add_classes output
  have hmem : slot ∈ output := mem_of_getElem? hslot
  unfold pairedMultiples
  simp only [hn, Option.getD_some, getD_eq_getElem?_getD, hslot, hlength]
  rw [if_neg (by simp; omega), if_neg (by simp)]
  refine ⟨_, rfl, fun st hst => ?_⟩
  rw [← map_uncurry_zip_eq_zipWith] at hst
  obtain ⟨⟨f, g⟩, hfg, rfl⟩ := mem_map.1 hst
  have hf : f ≠ nameless := fun h => (hinput i (by simp)).2 (h ▸ (of_mem_zip hfg).1)
  have hg : g ≠ nameless := fun h => (houtput slot hmem).2 (h ▸ (of_mem_zip hfg).2)
  have htake : Named (output.take n) := fun s hs => houtput s (mem_of_mem_take hs)
  have hdrop : Named (output.drop (n + 1)) := fun s hs => houtput s (mem_of_mem_drop hs)
  rw [Function.uncurry_apply_pair]
  refine ⟨⟨_, by rw [Statement.render]⟩, ?_⟩
  simp only [Statement.lacksName, any_append, any_cons, hbefore.slotRefs, hafter.slotRefs, htake.slotRefs,
    hdrop.slotRefs, GlyphRef.lacksName]
  simp [hf, hg]

/-! ### Substitutions -/

section
variable (hi : s.input = some input) (ho : s.replacement = some output) (hshape : SlotShape input output)
  (hreversal : s.reversal.counts = false) (hcalls : s.calls.anyGiven = false)
include hi ho hshape hreversal hcalls

/-- The type of a rule that stands in a feature file follows from its shape alone. -/
lemma lookupType_of_shape : ∃ type, s.lookupType true = .ok (some type) ∧
      ((type = 1 ∨ type = 3) ∧ input.length = 1 ∧ output.length = 1 ∨ type = 4 ∧ 2 ≤ input.length ∧ output.length = 1 ∨
        type = 2 ∧ input.length = 1 ∧ 2 ≤ output.length) := by
  unfold Substitution.lookupType
  simp only [hreversal, ho, hi, hcalls]
  cases hshape with
  | @single i o _ =>
    cases ha : s.alternate || (i.length == 1 && o.length > 1) with
    | true => exact ⟨3, by simp only [ha]; simp, by simp⟩
    | false => exact ⟨1, by simp only [ha]; simp, by simp⟩
  | @ligature _ o h =>
    obtain ⟨_, _, _, rfl⟩ := exists_cons_cons h
    exact ⟨4, by simp, by simp⟩
  | @multiple i _ h =>
    obtain ⟨_, _, _, rfl⟩ := exists_cons_cons h
    exact ⟨2, by simp, by simp⟩

/-- **A substitution of one of the shapes has a written form**, if it calls nothing. -/
lemma ofSubstitution_written (hinput : Named input) (houtput : Named output) (hbefore : Named s.before)
    (hafter : Named s.after) : ∃ st, ofSubstitution s = .ok st ∧ Written "" st := by
  obtain ⟨type, htype, hcases⟩ := lookupType_of_shape hi ho hshape hreversal hcalls
  unfold ofSubstitution
  simp only [htype, ok_bind, hi, ho, Option.getD_some]
  rcases hcases with ⟨rfl | rfl, hi1, ho1⟩ | ⟨rfl, -, ho1⟩ | ⟨rfl, hi1, ho2⟩
  · obtain ⟨o, rfl⟩ := length_eq_one_iff.1 ho1
    refine ⟨_, rfl, ⟨_, by rw [Statement.render]⟩, ?_⟩
    simp only [Statement.lacksName, any_append, hbefore.slotRefs, hafter.slotRefs, hinput.slotRefs,
      houtput.slotRefs, Bool.or_false]
  · obtain ⟨i, rfl⟩ := length_eq_one_iff.1 hi1
    obtain ⟨o, rfl⟩ := length_eq_one_iff.1 ho1
    refine ⟨_, rfl, ⟨_, by rw [Statement.render]⟩, ?_⟩
    have ho : (GlyphRef.members o).lacksName = false := by
      simpa [GlyphRef.lacksName] using (houtput o (by simp)).2
    simp only [Statement.lacksName, any_append, any_cons, any_nil, hbefore.slotRefs,
      hafter.slotRefs, slotRef_named (hinput i (by simp)).2, ho, Bool.or_false]
  · obtain ⟨o, rfl⟩ := length_eq_one_iff.1 ho1
    simp only [ofSlots]
    split
    · exact ⟨_, rfl, written_block (pairedLigatures_written _ hbefore hafter hinput houtput)⟩
    · refine ⟨_, rfl, ⟨_, by rw [Statement.render]⟩, ?_⟩
      simp only [Statement.lacksName, any_append, any_cons, any_nil, hbefore.slotRefs,
        hafter.slotRefs, hinput.slotRefs, slotRef_named (houtput o (by simp)).2, Bool.or_false]
  · obtain ⟨i, rfl⟩ := length_eq_one_iff.1 hi1
    obtain ⟨o, o', rest, rfl⟩ := exists_cons_cons ho2
    simp only [ofSlots]
    split
    · next hpaired =>
      obtain ⟨body, hbody, hwritten⟩ := pairedMultiples_written _ hpaired hbefore hafter hinput houtput
      rw [hbody]
      exact ⟨_, rfl, written_block hwritten⟩
    · refine ⟨_, rfl, ⟨_, by rw [Statement.render]⟩, ?_⟩
      simp only [Statement.lacksName, any_append, any_cons, hbefore.slotRefs, hafter.slotRefs,
        houtput.slotRefs, slotRef_named (hinput i (by simp)).2, Bool.or_false]

end

end Feature
end GlyphRules
