import Mathlib.Data.List.Induction
import GlyphRules.Proofs.Shaping.Sweep
import GlyphRules.Shaping.Indic.Reorder
import GlyphRules.Shaping.Khmer
import GlyphRules.Shaping.Myanmar
import GlyphRules.Shaping.Universal

/-! Circles for broken syllables.

The loop puts circles into the items it walks over. A circle has the number of the item it stands at, so the loop
passes over both, and each broken syllable gets one circle (`circlePass_circles`). -/
namespace GlyphRules.Shaping

open Step List

variable {s : Session} {r : SyllableRules} {i : Item} {done rest : List Item}

/-- A dotted circle in the syllable of an item. -/
def Item.Circle (i c : Item) : Prop :=
  c.codepoint = some dottedCircle ∧ c.syllable = i.syllable ∧ c.syllableIndex = i.syllableIndex

/-- What becomes of an item: if a broken syllable begins with it, a circle stands before it, or behind it if it is a
repha. -/
def Becomes (r : SyllableRules) (before : Option (Option Int)) (i : Item) (out : List Item) : Prop :=
  if i.beginsBroken before then ∃ c, i.Circle c ∧ out = if r.isRepha i then [i, c] else [c, i] else out = [i]

/-- What becomes of items, in their order. -/
def Circled (r : SyllableRules) : Option (Option Int) → List Item → List Item → Prop
  | _, [], out => out = []
  | before, i :: rest, out => ∃ first more, out = first ++ more ∧ Becomes r before i first ∧
      Circled r (some i.syllableIndex) rest more

def scripts : List SyllableRules := [Indic.rules, Khmer.rules, Myanmar.rules, Universal.rules]

namespace Shape

/-- Every script knows the class of a dotted circle. -/
lemma classify_circle (hr : r ∈ scripts) {c : Item} (hcode : c.codepoint = some dottedCircle) (hglyph : c.glyph = none)
    (s) : ∃ j, (r.classify c).on s = (.ok j, s) ∧ j.glyph = none ∧ c.Circle j := by
  obtain ⟨codepoint, glyph⟩ := c
  cases hcode
  cases hglyph
  simp only [scripts, mem_cons, not_mem_nil, or_false] at hr
  obtain rfl | rfl | rfl | rfl := hr
  all_goals exact ⟨_, rfl, rfl, rfl, rfl, rfl⟩

lemma glyphOrNotdef_mem {font : Font} (h : font.glyphs ≠ []) (code) :
    ∃ g ∈ font.names, font.glyphOrNotdef code = .ok g := by
  have known {code g} (hg : font.glyphFor? code = some g) : g ∈ font.names := by
    unfold Font.glyphFor? at hg
    split_ifs at hg with _ hdef
    · cases hg
      simpa [Font.has, Font.names] using hdef
    all_goals
      obtain ⟨glyph, hglyph, rfl⟩ := Option.map_eq_some_iff.1 hg
      refine mem_map_of_mem ?_
    · exact mem_of_mem_head? hglyph
    · exact mem_reverse.1 (mem_of_find?_eq_some hglyph)
  obtain ⟨first, hfirst⟩ : ∃ g, font.glyphFor? 0 = some g := by
    obtain ⟨glyph, more, hglyphs⟩ := exists_cons_of_ne_nil h
    rw [Font.glyphFor?, if_pos (beq_self_eq_true 0), hglyphs]
    split_ifs <;> simp
  unfold Font.glyphOrNotdef
  rw [hfirst]
  cases hg : font.glyphFor? code with
  | some g => exact ⟨g, known hg, rfl⟩
  | none => exact ⟨first, known hfirst, rfl⟩

lemma mapped_circle {c : Item} (hcode : c.codepoint = some dottedCircle) (hglyph : c.glyph = none)
    (hfont : s.font.glyphs ≠ []) : ∃ j t, (mapped c).on s = (.ok j, t) ∧ Quiet s t ∧ c.Circle j := by
  obtain ⟨g, hmem, hg⟩ := glyphOrNotdef_mem hfont (c.codepoint.getD 0)
  obtain ⟨t, ht⟩ := prepared_glyph (i := { c with glyph := some g }) rfl hmem
  have found : (glyphFor c).on s = (.ok g, s) := by
    unfold glyphFor
    simp only [hglyph]
    rw [on_get_bind, hg]
    rfl
  unfold mapped preparedInFont
  rw [on_bind_ok found, on_bind_ok ht]
  exact ⟨_, t, rfl, (prepared_quiet _).of_on ht, hcode, rfl, rfl⟩

/-- The number of the item before the rest, if any. -/
def numberBefore (done : List Item) : Option (Option Int) := done.getLast?.map (·.syllableIndex)

lemma numberBefore_eq (done rest) (i : Item) : (if done.length == 0 then none
    else (done ++ i :: rest)[done.length - 1]?.map (·.syllableIndex)) = numberBefore done := by
  cases done using List.reverseRecOn with
  | nil => rfl
  | append_singleton done p => simp [numberBefore]

/-- A look at an item. -/
lemma circlePass_on (hr : r ∈ scripts) (hitems : s.buffer.items = done ++ i :: rest) (hsome : i.syllable.isSome)
    (hfont : i.syllable = some "broken_cluster" → s.font.glyphs ≠ []) :
    ∃ t out, (circlePass r done.length).on s = (.ok (some (done.length + 1)), t) ∧ t.font = s.font ∧
      t.buffer.items = done ++ out ++ rest ∧ Becomes r (numberBefore done) i out := by
  have here : (done ++ i :: rest)[done.length]? = some i := by simp
  rw [circlePass, on_bind_ok (on_buffer s)]
  simp only [hitems, here, numberBefore_eq]
  split
  · next hnone => simp [hnone] at hsome
  unfold Becomes
  split
  · next hbroken =>
    let new := s.buffer.newCharacter dottedCircle
    have hnamed : i.syllable = some "broken_cluster" := eq_of_beq (Bool.and_eq_true_iff.1 hbroken).1
    obtain ⟨j, hj, hglyph, hcode, hj'⟩ := classify_circle hr
      (c := { new.1 with syllable := i.syllable, syllableIndex := i.syllableIndex }) rfl rfl { s with buffer := new.2 }
    obtain ⟨c, t, ht, quiet, hc⟩ := mapped_circle (s := { s with buffer := new.2 }) hcode hglyph (hfont hnamed)
    rw [on_bind_ok (on_buffer s), on_bind_ok (on_onBuffer _ s), on_bind_ok hj, on_bind_ok ht,
      on_bind_ok (on_onBuffer _ t)]
    refine ⟨_, _, rfl, quiet.font, ?_, c, ⟨hc.1, hc.2.1.trans hj'.1, hc.2.2.trans hj'.2⟩, rfl⟩
    have hsame : t.buffer.items = done ++ i :: rest := by
      rw [quiet.buffer]
      exact hitems
    simp only [hsame]
    split
    · simp [take_length_add_append, drop_length_add_append]
    · simp
  · exact ⟨s, [i], rfl, rfl, by simpa using hitems, rfl⟩

/-- The loop from an item on. -/
lemma loop_circlePass (hr : r ∈ scripts) (done) (hitems : s.buffer.items = done ++ rest)
    (hsome : ∀ i ∈ rest, i.syllable.isSome)
    (hfont : ∀ i ∈ rest, i.syllable = some "broken_cluster" → s.font.glyphs ≠ []) :
    ∃ t out, loop (circlePass r) done.length s = some (.ok (), t) ∧ t.buffer.items = done ++ out ∧
      Circled r (numberBefore done) rest out := by
  induction rest generalizing s done with
  | nil =>
    refine ⟨s, [], loop_stop ?_, hitems, rfl⟩
    rw [circlePass, on_bind_ok (on_buffer s)]
    simp [hitems]
  | cons i rest ih =>
    obtain ⟨hi, hsome⟩ := forall_mem_cons.1 hsome
    obtain ⟨hif, hfont⟩ := forall_mem_cons.1 hfont
    obtain ⟨t, out, ht, hsame, hnew, hout⟩ := circlePass_on hr hitems hi hif
    rw [← hsame] at hif hfont
    rw [loop_next ht]
    by_cases hbroken : i.beginsBroken (numberBefore done)
    · -- The second of the two has the number of the first, so nothing becomes of it.
      obtain ⟨x, y, rfl, hx, hy, hkind⟩ : ∃ x y, out = [x, y] ∧ x.syllableIndex = i.syllableIndex ∧
          y.syllableIndex = i.syllableIndex ∧ y.syllable = i.syllable := by
        rw [Becomes, if_pos hbroken] at hout
        obtain ⟨c, ⟨-, hkind, hindex⟩, rfl⟩ := hout
        split
        · exact ⟨i, c, rfl, rfl, hindex, hkind⟩
        · exact ⟨c, i, rfl, hindex, rfl, rfl⟩
      have next : t.buffer.items = (done ++ [x]) ++ y :: rest := by simpa using hnew
      obtain ⟨u, out, hu, hsame, hnew, hout'⟩ := circlePass_on hr next (hkind ▸ hi) (hkind ▸ hif)
      obtain rfl : out = [y] := by simpa [Becomes, Item.beginsBroken, numberBefore, hx, hy] using hout'
      obtain ⟨v, more, hv, hlast, hmore⟩ := ih (done ++ [x] ++ [y]) hnew hsome (hsame ▸ hfont)
      simp only [length_append, length_singleton] at hu
      rw [loop_next hu]
      refine ⟨v, [x, y] ++ more, by simpa using hv, by simpa using hlast, _, _, rfl, hout, ?_⟩
      simpa [numberBefore, hy] using hmore
    · obtain rfl : out = [i] := by simpa [Becomes, hbroken] using hout
      obtain ⟨u, more, hu, hlast, hmore⟩ := ih (done ++ [i]) hnew hsome hfont
      refine ⟨u, [i] ++ more, by simpa using hu, by simpa using hlast, _, _, rfl, hout, ?_⟩
      simpa [numberBefore] using hmore

end Shape

/-- **Every broken syllable gets one dotted circle**, though the loop walks over the items it puts circles into:
it ends, and nothing else is added, lost or moved. -/
theorem circlePass_circles (hr : r ∈ scripts) (hsome : ∀ i ∈ s.buffer.items, i.syllable.isSome)
    (hfont : ∀ i ∈ s.buffer.items, i.syllable = some "broken_cluster" → s.font.glyphs ≠ []) :
    ∃ t, loop (Shape.circlePass r) 0 s = some (.ok (), t) ∧ Circled r none s.buffer.items t.buffer.items := by
  obtain ⟨t, out, ht, rfl, hout⟩ := Shape.loop_circlePass hr [] rfl hsome hfont
  exact ⟨t, ht, hout⟩

/-- A repha and a letter that make a broken syllable. -/
def brokenText : Session :=
  let letter : Item := { codepoint := some 0x93F, syllable := some "broken_cluster", syllableIndex := some 0 }
  { sampleSession [] [] with
    buffer := { items := [{ letter with syllabicCategory := some (.named "Repha") }, letter] } }

theorem circlePass_circles_repha : ∃ t, loop (Shape.circlePass Khmer.rules) 0 brokenText = some (.ok (), t) ∧
    Circled Khmer.rules none brokenText.buffer.items t.buffer.items :=
  circlePass_circles (by simp [scripts]) (by simp [brokenText]) (fun _ _ _ => cons_ne_nil _ _)

end GlyphRules.Shaping
