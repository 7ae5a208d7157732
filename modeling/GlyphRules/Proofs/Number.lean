import GlyphRules.Number.Reader

/-! Whole numbers and their texts.

The text of a number is read back as the number (`read_toString`), so different numbers have different texts. -/
namespace GlyphRules.Number

open Text Option

section
variable {c : Char} (h : c.isDigit)
include h

theorem toNat_of_isDigit : 48 ≤ c.toNat ∧ c.toNat ≤ 57 := by
  simpa [Char.isDigit, UInt32.le_iff_toNat_le] using h

theorem isBlank_of_isDigit : isBlank c = false := by
  have hc := toNat_of_isDigit h
  have hne {d} (hd : d.toNat < 48) : (c == d) = false := by
    refine beq_false_of_ne fun heq => ?_
    rw [heq] at hc
    omega
  rw [isBlank, hne (by decide), hne (by decide), hne (by decide), hne (by decide)]
  simp only [Bool.false_or, Bool.or_eq_false_iff, Bool.and_eq_false_iff, beq_eq_false_iff_ne, decide_eq_false_iff_not]
  omega

theorem digitValue?_of_isDigit : digitValue? c = some (c.toNat - '0'.toNat) := by
  rw [digitValue?, if_pos h]
  rfl

theorem readDigits_digit (cs) (afterDigit) (acc) :
    readDigits 10 (c :: cs) afterDigit acc =
      readDigits 10 cs true (some (acc.getD 0 * 10 + (c.toNat - '0'.toNat))) := by
  have hc := toNat_of_isDigit h
  have hlt : c.toNat - '0'.toNat < 10 := by
    show c.toNat - 48 < 10
    omega
  rw [readDigits]
  · simp only [digitValue?_of_isDigit h, bind_eq_bind, bind_some, if_pos hlt]
  · rintro rfl
    revert h
    decide

end

/-- Digits go on with the number that stands before them. -/
theorem readDigits_digits (h : ∀ c ∈ cs, c.isDigit) (n) :
    readDigits 10 cs true (some n) = some (Nat.ofDigitChars 10 cs n) := by
  induction cs generalizing n with
  | nil => rfl
  | cons c cs ih =>
    obtain ⟨hc, hcs⟩ := List.forall_mem_cons.1 h
    rw [readDigits_digit hc, ih hcs, Nat.mul_comm]
    rfl

theorem isDigit_of_mem {c} (h : c ∈ Nat.toDigits 10 n) : c.isDigit = true :=
  Nat.isDigit_of_mem_toDigits (by decide) (by decide) h

theorem readUnsigned_repr (n) : readUnsigned 10 (Nat.toDigits 10 n) = some n := by
  have hdigits : ∀ c ∈ Nat.toDigits 10 n, c.isDigit = true := fun c hc => isDigit_of_mem hc
  have hvalue : Nat.ofDigitChars 10 (Nat.toDigits 10 n) 0 = n := Nat.ofDigitChars_toDigits (by decide) (by decide)
  show readDigits 10 (Nat.toDigits 10 n) false none = some n
  obtain ⟨c, cs, heq⟩ := List.exists_cons_of_ne_nil (Nat.toDigits_ne_nil)
  rw [heq] at hdigits hvalue ⊢
  obtain ⟨hc, hcs⟩ := List.forall_mem_cons.1 hdigits
  rw [readDigits_digit hc, readDigits_digits hcs, ← hvalue]
  rfl

theorem dropWhile_isBlank {cs : List Char} (h : ∀ c ∈ cs, isBlank c = false) : cs.dropWhile isBlank = cs := by
  cases cs with
  | nil => rfl
  | cons c cs => rw [List.dropWhile_cons_of_neg (by rw [h c (.head _)]; exact Bool.false_ne_true)]

theorem trimRight_of_not_blank (h : ∀ c ∈ cs, isBlank c = false) : trimRight cs = cs := by
  rw [trimRight, dropWhile_isBlank (by simpa using h), List.reverse_reverse]

theorem trim_of_not_blank (h : ∀ c ∈ cs, isBlank c = false) : trim cs = cs := by
  unfold trim trimLeft
  rw [dropWhile_isBlank h, trimRight_of_not_blank h]

theorem toList_ofNat (m) : (toString (Int.ofNat m)).toList = Nat.toDigits 10 m := Nat.toList_repr

theorem toList_negSucc (m) : (toString (Int.negSucc m)).toList = '-' :: Nat.toDigits 10 (m + 1) := by
  show ("-" ++ (m + 1).repr).toList = _
  rw [String.toList_append, Nat.toList_repr]
  rfl

/-- **The text of a number is read back as the number.** -/
theorem read_toString (n) : read (toString n) = .ok n := by
  have hblank m : ∀ c ∈ Nat.toDigits 10 m, isBlank c = false := fun c hc =>
    isBlank_of_isDigit (isDigit_of_mem hc)
  have hread : read? 10 (toString n) = some n := by
    cases n with
    | ofNat m =>
      rw [read?, toList_ofNat, trim_of_not_blank (hblank m)]
      split
      · next cs heq => exact absurd (isDigit_of_mem (heq ▸ List.mem_cons_self ..)) (by decide)
      · next cs heq => exact absurd (isDigit_of_mem (heq ▸ List.mem_cons_self ..)) (by decide)
      · rw [readUnsigned_repr]
        rfl
    | negSucc m =>
      rw [read?, toList_negSucc, trim_of_not_blank (List.forall_mem_cons.2 ⟨by decide, hblank (m + 1)⟩)]
      simp only [readUnsigned_repr]
      rfl
  rw [read, hread]

theorem mem_toString {n : Int} {c} (h : c ∈ (toString n).toList) : c = '-' ∨ c.isDigit = true := by
  cases n with
  | ofNat m =>
    rw [toList_ofNat] at h
    exact .inr (isDigit_of_mem h)
  | negSucc m =>
    rw [toList_negSucc] at h
    exact (List.mem_cons.1 h).imp_right isDigit_of_mem

theorem toString_ne_empty (n : Int) : toString n ≠ "" := by
  intro h
  have := read_toString n
  rw [h] at this
  cases this

theorem toString_injective {m n : Int} (h : toString m = toString n) : m = n := by
  have := read_toString m
  rw [h, read_toString n] at this
  exact (Except.ok.inj this).symm

end GlyphRules.Number
