import GlyphRules.Proofs.Shaping.View
import GlyphRules.Shaping.Hangul

/-! Hangul text before and after its letters are composed.

The places of a text are counted beforehand. Where letters are composed the last place is missing;
where a syllable is taken apart it takes the place of the final letter after it. So the letters of a
text are kept exactly if the text stays as it is (`composeText_jamo_iff`). -/
namespace GlyphRules.Shaping.Hangul

open Step List Text

/-- The letters of a text, with every syllable taken apart. -/
def jamo (codes : List Nat) : List Nat :=
  codes.flatMap fun c => if isSyllable c then syllableParts c else [c]

/-- Fewer characters, or as many and fewer letters. -/
def Less (out codes : List Nat) : Prop :=
  out.length < codes.length ∨ out.length = codes.length ∧ (jamo out).length < (jamo codes).length

variable {font : Font} {count i u v : Nat} {codes out : List Nat}

/-! ### One place -/

lemma isSyllable_letter (h : isLeading u = true ∨ isVowel u = true ∨ isTrailing u) : isSyllable u = false := by
  simp only [isLeading, isVowel, isTrailing, Bool.or_eq_true, Bool.and_eq_true, decide_eq_true_eq] at h
  simp only [isSyllable, Bool.and_eq_false_iff, decide_eq_false_iff_not]
  unfold hangulS
  omega

lemma syllableParts_letters (hs : isSyllable u) (h : isOpen u) :
    ∃ l v, syllableParts u = [l, v] ∧ isLeading l ∧ isVowel v = true := by
  simp only [isSyllable, Bool.and_eq_true, decide_eq_true_eq] at hs
  have h := beq_iff_eq.1 h
  refine ⟨_, _, by simp [syllableParts, h]; exact ⟨rfl, rfl⟩, ?_, ?_⟩
  · simp only [isLeading, Bool.or_eq_true, Bool.and_eq_true, decide_eq_true_eq]
    unfold hangulL hangulN
    omega
  · simp only [isVowel, Bool.or_eq_true, Bool.and_eq_true, decide_eq_true_eq]
    unfold hangulV hangulN
    omega

/-- Two characters or more that give way to one leave a shorter text. -/
lemma length_replaceRange_lt (hi : i + 1 < codes.length) (hj : i + 2 ≤ j) (c) :
    (replaceRange codes i j [c]).length < codes.length := by
  have hmin a b : Nat.min a b = min a b := rfl
  have hmax a b : Nat.max a b = max a b := rfl
  unfold replaceRange
  simp only [clampEnd_nat, hmin, hmax, length_append, length_take, length_drop, length_singleton]
  omega

lemma lt_length_of_itemAt (h : itemAt codes i = .ok u) : i < codes.length :=
  (List.getElem?_eq_some_iff.1 (itemAt_eq_ok.1 h)).1

lemma meetFinal_ok (hu : codes[i]? = some u) (hs : isSyllable u)
    (h : meetFinal font count i u codes = .ok out) : out = codes ∨ i + 1 < codes.length ∧ Less out codes := by
  unfold meetFinal at h
  split at h
  · cases h
    exact .inl rfl
  · next hopen =>
    simp only [Bool.or_eq_true, Bool.not_eq_true', not_or, Bool.not_eq_false] at hopen
    obtain ⟨v, hv, h⟩ := bind_eq_ok.1 h
    have hi := lt_length_of_itemAt hv
    split at h
    · cases h
      exact .inr ⟨hi, .inl (length_replaceRange_lt hi (Nat.le_refl _) _)⟩
    · split at h
      · next hapart =>
        -- As many characters as before, but the final letter is gone.
        obtain ⟨-, -, h⟩ := bind_eq_ok.1 h
        cases h
        have hcodes : codes = codes.take i ++ u :: v :: codes.drop (i + 2) := by
          rw [← (List.getElem?_eq_some_iff.1 hu).2, ← (List.getElem?_eq_some_iff.1 (itemAt_eq_ok.1 hv)).2,
            ← drop_eq_getElem_cons, ← drop_eq_getElem_cons, take_append_drop]
        obtain ⟨l, w, hparts, hl, hw⟩ := syllableParts_letters hs hopen.1
        have hletters : isSyllable l = false ∧ isSyllable w = false ∧ isSyllable v = false :=
          ⟨isSyllable_letter (.inl hl), isSyllable_letter (.inr (.inl hw)),
            isSyllable_letter (.inr (.inr (Bool.and_eq_true_iff.1 hapart).1))⟩
        have hless : Less (codes.take i ++ syllableParts u ++ codes.drop (i + 2))
            (codes.take i ++ u :: v :: codes.drop (i + 2)) :=
          .inr (by simp [jamo, hparts, hs, hletters])
        rw [← hcodes] at hless
        rw [replaceRange_nat _ _ (Nat.le_add_right ..) hi]
        exact .inr ⟨hi, hless⟩
      · cases h
        exact .inl rfl

/-- A place leaves the text alone, or it is not the last one and makes the text less. -/
lemma stepAt_ok (h : stepAt font count codes i = .ok out) : out = codes ∨ i + 1 < codes.length ∧ Less out codes := by
  obtain ⟨u, hu, h⟩ := bind_eq_ok.1 h
  split at h
  · split at h <;> cases h
    exact .inl rfl
  · split at h
    · obtain ⟨v, hv, h⟩ := bind_eq_ok.1 h
      have hi := lt_length_of_itemAt hv
      split at h
      · cases h
        exact .inl rfl
      · obtain ⟨final, -, h⟩ := bind_eq_ok.1 h
        split at h <;> cases h
        · exact .inr ⟨hi, .inl (length_replaceRange_lt hi (by split <;> omega) _)⟩
        · exact .inl rfl
    · split at h
      · next hs => exact meetFinal_ok (itemAt_eq_ok.1 hu) hs h
      · cases h
        exact .inl rfl

/-! ### The whole text -/

lemma Less.trans (h : Less a b) (h' : Less b c) : Less a c := by
  unfold Less at *
  omega

lemma foldlM_stepAt {l : List Nat} (h : l.foldlM (stepAt font count) codes = .ok out) : out = codes ∨ Less out codes := by
  induction l generalizing codes with
  | nil =>
    cases h
    exact .inl rfl
  | cons i l ih =>
    obtain ⟨mid, hmid, hl⟩ := bind_eq_ok.1 h
    rcases stepAt_ok hmid with rfl | ⟨-, hstep⟩
    · exact ih hl
    · rcases ih hl with rfl | hless
      · exact .inr hstep
      · exact .inr (hless.trans hstep)

/-- A text that is gone through up to its last place is as long as it was. -/
lemma length_composeText (h : composeText font codes = .ok out) : out.length = codes.length := by
  unfold composeText at h
  cases hn : codes.length with
  | zero =>
    rw [hn] at h
    cases h
    exact hn
  | succ n =>
    rw [hn, range_succ, foldlM_append] at h
    obtain ⟨mid, hmid, h⟩ := bind_eq_ok.1 h
    obtain ⟨last, hlast, h⟩ := bind_eq_ok.1 h
    cases h
    -- The last place is still there, so nothing before it made the text shorter.
    obtain ⟨u, hu, -⟩ := bind_eq_ok.1 hlast
    have hge := lt_length_of_itemAt hu
    have hle : mid.length ≤ n + 1 := by
      rcases foldlM_stepAt hmid with rfl | hless
      · omega
      · unfold Less at hless
        omega
    rcases stepAt_ok hlast with rfl | ⟨hlt, -⟩ <;> omega

/-- **The letters of a text are kept exactly if the text stays as it is**: composing fails, and taking apart loses a
letter. -/
theorem composeText_jamo_iff :
    (∃ out, composeText font codes = .ok out ∧ jamo out = jamo codes) ↔ composeText font codes = .ok codes := by
  constructor
  · rintro ⟨out, hout, hjamo⟩
    rcases foldlM_stepAt hout with rfl | hless
    · exact hout
    · have hlength := length_composeText hout
      unfold Less at hless
      rw [hjamo] at hless
      omega
  · intro h
    exact ⟨codes, h, rfl⟩

/-- Two letters, and the syllable that they make up. -/
def syllableFont : Font := ⟨[0x1100, 0x1161, 0xAC00].map fun c => { name := "uni", unicodes := [c] }⟩

/-- **Two letters that make up a syllable of the font cannot be composed.** -/
theorem composeText_two_letters : composeText syllableFont [0x1100, 0x1161] = .error .outOfRange := by
  decide +kernel

end GlyphRules.Shaping.Hangul
