import Mathlib.Data.List.Infix
import GlyphRules.Proofs.Step
import GlyphRules.Shaping.Vowels

/-! Where dotted circles stand.

A circle stands before the last character of every sequence that a script prohibits, and nowhere else. No
prohibited sequence has a circle in it, so a second pass finds none (`separateVowels_circles`). The text grows while
the loop goes over it; a recursion on the text gives the same (`loop_vowelPass`). -/
namespace GlyphRules.Shaping

open List Step

/-- The sequences that a script prohibits. -/
def prohibited (script : String) : List Nat → Bool
  | [a, b] => vowelsClash script a b
  | [a, b, c] => tripleClash script a b c
  | _ => false

/-- Whether a prohibited sequence ends where a text ends. -/
def endsBadly (script : String) (text : List Nat) : Bool := text.tails.any (prohibited script)

/-- A text that follows another: each character, and a circle before it if a prohibited sequence ends there. -/
def circled (script : String) (before text : List Nat) : List Nat :=
  text.inits.tail.flatMap fun t =>
    (if endsBadly script (before ++ t) then [dottedCircle] else []) ++ t.getLast?.toList

variable {script : String} {a b c : Nat} {before rest : List Nat}

lemma circled_cons : circled script before (a :: rest) =
    (if endsBadly script (before ++ [a]) then [dottedCircle] else []) ++ a :: circled script (before ++ [a]) rest := by
  cases rest with
  | nil => simp [circled]
  | cons b rest => simp [circled, flatMap_map, getLast?_cons]

lemma endsBadly_append (before) (a b) : endsBadly script (before ++ [a] ++ [b]) =
    (vowelsClash script a b || before.getLast?.any (tripleClash script · a b)) := by
  rw [append_assoc]
  induction before with
  | nil => simp [endsBadly, prohibited]
  | cons x before ih =>
    cases before with
    | nil => simp [endsBadly, prohibited, Bool.or_comm]
    | cons y before =>
      have long : prohibited script (x :: y :: (before ++ [a, b])) = false := by
        rcases before with _ | ⟨z, _ | ⟨w, before⟩⟩ <;> rfl
      rw [getLast?_cons_cons, ← ih, endsBadly, cons_append, tails_cons, any_cons]
      exact congrArg (· || _) long

/-! ### Clashes -/

/-- What the loop makes of a text, as a recursion on the text. -/
def separated (script : String) : List Nat → List Nat
  | [] => []
  | [a] => [a]
  | [a, b] => if vowelsClash script a b then [a, dottedCircle, b] else [a, b]
  | a :: b :: c :: rest =>
    if vowelsClash script a b then a :: dottedCircle :: separated script (b :: c :: rest)
    else if tripleClash script a b c then a :: b :: dottedCircle :: separated script (c :: rest)
    else a :: separated script (b :: c :: rest)

lemma vowelsClash_circle (h : a = dottedCircle ∨ b = dottedCircle) : vowelsClash script a b = false := by
  have free : ∀ e ∈ vowelClashes, ∀ p ∈ e.2, dottedCircle ∉ p.1 ∧ dottedCircle ∉ p.2 := by decide
  unfold vowelsClash
  cases hfound : vowelClashes.find? (·.1 == script) with
  | none => rfl
  | some e =>
    refine any_eq_false.2 fun p hp => ?_
    obtain ⟨first, second⟩ := free e (mem_of_find?_eq_some hfound) p hp
    rcases h with rfl | rfl
    · simp [first]
    · simp [second]

lemma tripleClash_circle (h : a = dottedCircle ∨ b = dottedCircle ∨ c = dottedCircle) :
    tripleClash script a b c = false := by
  rcases h with rfl | rfl | rfl <;> simp [tripleClash, dottedCircle]

lemma exists_triple (h : ¬∀ c ∈ rest.head?, tripleClash script a b c = false) :
    ∃ c more, rest = c :: more ∧ tripleClash script a b c := by
  cases rest <;> simp_all

lemma separated_pair (h : ∀ c ∈ rest.head?, tripleClash script a b c = false) :
    separated script (a :: b :: rest) =
      if vowelsClash script a b then a :: dottedCircle :: separated script (b :: rest)
      else a :: separated script (b :: rest) := by
  cases rest with
  | nil => rfl
  | cons c rest => rw [separated, h c rfl]; rfl

lemma separated_triple (h : tripleClash script a b c) (rest) : vowelsClash script a b = false ∧
    (∀ d, tripleClash script b c d = false) ∧
    separated script (a :: b :: c :: rest) = a :: b :: dottedCircle :: separated script (c :: rest) := by
  obtain ⟨⟨⟨rfl, rfl⟩, rfl⟩, rfl⟩ :
      ((script = "Devanagari" ∧ a = 0x0930) ∧ b = 0x094D) ∧ c = 0x0907 := by simpa [tripleClash] using h
  exact ⟨rfl, fun d => rfl, rfl⟩

lemma separated_past_circle (a) (rest) :
    separated script (a :: dottedCircle :: rest) = a :: dottedCircle :: separated script rest := by
  have behind : separated script (dottedCircle :: rest) = dottedCircle :: separated script rest := by
    cases rest with
    | nil => rfl
    | cons b rest => simp [separated_pair, tripleClash_circle, vowelsClash_circle]
  simp [separated_pair, tripleClash_circle, vowelsClash_circle, behind]

/-! ### A look at a place -/

/-- A look passes `front`: the first two characters of a triple, or one. -/
lemma vowelPass_on (before front behind) {triple} (htriple : rest.head?.any (tripleClash script a b) = triple)
    (heq : a :: b :: rest = front ++ behind) (hfront : front.length = if triple then 2 else 1) :
    (vowelPass script before.length).on (before ++ a :: b :: rest) =
      (.ok (some (before ++ front).length),
        before ++ front ++ ((if triple || vowelsClash script a b then [dottedCircle] else []) ++ behind)) := by
  have hnext : (if triple then before.length + 2 else before.length + 1) = (before ++ front).length := by grind
  have htext : before ++ a :: b :: rest = (before ++ front) ++ behind := by rw [heq, append_assoc]
  rw [vowelPass, on_get_bind]
  simp only [drop_left, htriple, hnext]
  rw [htext, take_left, drop_left]
  split <;> rfl

lemma vowelPass_stop (before rest) (h : rest.length < 2) :
    (vowelPass script before.length).on (before ++ rest) = (.ok none, before ++ rest) := by
  rw [vowelPass, on_get_bind, drop_left]
  match rest, h with
  | [], _ => rfl
  | [a], _ => rfl

/-- A circle clashes with nothing, so that it is passed like any other character. -/
lemma loop_past_circle (before b rest) : loop (vowelPass script) before.length (before ++ dottedCircle :: b :: rest) =
    loop (vowelPass script) (before ++ [dottedCircle]).length (before ++ [dottedCircle] ++ b :: rest) := by
  have apart : rest.head?.any (tripleClash script dottedCircle b) = false := by
    cases rest.head? <;> simp [tripleClash_circle]
  rw [loop_next (vowelPass_on before [dottedCircle] (b :: rest) apart rfl rfl), vowelsClash_circle (.inl rfl)]
  rfl

/-- **The loop over the growing text gives what the recursion gives.** -/
lemma loop_vowelPass (before text) : loop (vowelPass script) before.length (before ++ text) =
    some (.ok (), before ++ separated script text) := by
  induction hlength : text.length using Nat.strong_induction_on generalizing before text with
  | _ n ih =>
    subst hlength
    match text with
    | [] | [_] => exact loop_stop (vowelPass_stop _ _ (by simp))
    | a :: b :: rest =>
      have behind (before) : loop (vowelPass script) before.length (before ++ b :: rest) =
        some (.ok (), before ++ separated script (b :: rest)) := ih _ (by simp) _ _ rfl
      by_cases hfree : ∀ c ∈ rest.head?, tripleClash script a b c = false
      · have apart : rest.head?.any (tripleClash script a b) = false := by simpa [Option.any_eq_false] using hfree
        rw [loop_next (vowelPass_on before [a] (b :: rest) apart rfl rfl), separated_pair hfree]
        cases vowelsClash script a b with
        | false =>
          refine (behind _).trans ?_
          simp
        | true =>
          refine (loop_past_circle _ _ _).trans ((behind _).trans ?_)
          simp
      · obtain ⟨c, rest, rfl, hclash⟩ := exists_triple hfree
        have together : (c :: rest).head?.any (tripleClash script a b) = true := hclash
        rw [loop_next (vowelPass_on before [a, b] (c :: rest) together rfl rfl), (separated_triple hclash rest).2.2]
        refine (loop_past_circle _ _ _).trans ((ih _ (by grind) _ _ rfl).trans ?_)
        simp

/-! ### A pass -/

/-- What a pass gives behind a character, and that another pass leaves it. -/
lemma separated_cons (a) (rest before)
    (h : ∀ x ∈ before.getLast?, ∀ c ∈ rest.head?, tripleClash script x a c = false) :
    separated script (a :: rest) = a :: circled script (before ++ [a]) rest ∧
      separated script (a :: circled script (before ++ [a]) rest) = a :: circled script (before ++ [a]) rest := by
  -- A triple is dealt with as a whole, so the step may be over two characters.
  induction hlength : rest.length using Nat.strong_induction_on generalizing a before rest with
  | _ n ih =>
    subst hlength
    cases rest with
    | nil => exact ⟨rfl, rfl⟩
    | cons b rest =>
      have first : before.getLast?.any (tripleClash script · a b) = false := by simpa [Option.any_eq_false] using h
      rw [circled_cons, endsBadly_append, first, Bool.or_false]
      by_cases hfree : ∀ c ∈ rest.head?, tripleClash script a b c = false
      · obtain ⟨once, twice⟩ := ih rest.length (by simp) b rest (before ++ [a]) (by simpa using hfree) rfl
        rw [separated_pair hfree, once]
        split
        · refine ⟨rfl, ?_⟩
          rw [singleton_append, separated_past_circle, twice]
        · next hapart =>
          refine ⟨rfl, ?_⟩
          rw [nil_append, separated_pair, if_neg hapart, twice]
          intro c hc
          cases rest with
          | nil => cases hc
          | cons d rest =>
            rw [circled_cons] at hc
            split at hc <;> simp_all [tripleClash_circle]
      · obtain ⟨c, rest, rfl, hclash⟩ := exists_triple hfree
        obtain ⟨apart, next, heq⟩ := separated_triple hclash rest
        obtain ⟨once, twice⟩ := ih rest.length (by grind) c rest (before ++ [a] ++ [b]) (by simp [next]) rfl
        rw [heq, once, apart, circled_cons, endsBadly_append, getLast?_concat, Option.any_some, hclash, Bool.or_true]
        refine ⟨rfl, (separated_pair (by simp [tripleClash_circle])).trans ?_⟩
        rw [if_neg (by simp [apart])]
        simp only [if_true, singleton_append, separated_past_circle, twice]
        rfl

/-- **A circle stands before the last character of every prohibited sequence and nowhere else**, and another pass
adds none. The loop ends, though every circle makes the text longer. -/
theorem separateVowels_circles (script : String) (text : List Nat) :
    loop (vowelPass script) 0 text = some (.ok (), separateVowels script text) ∧
      separateVowels script text = circled script [] text ∧
      separateVowels script (separateVowels script text) = separateVowels script text := by
  have run (text) : loop (vowelPass script) 0 text = some (.ok (), separated script text) := loop_vowelPass [] text
  have same (text) : separateVowels script text = separated script text := by
    rw [separateVowels, run]
    rfl
  rw [run, same, same]
  refine ⟨rfl, ?_⟩
  cases text with
  | nil => exact ⟨rfl, rfl⟩
  | cons a rest =>
    obtain ⟨once, twice⟩ := @separated_cons script a rest [] (by simp)
    rw [once, twice, circled_cons]
    exact ⟨rfl, rfl⟩

example : separateVowels "Devanagari" [0x0905, 0x093E] = [0x0905, dottedCircle, 0x093E] := by cbv

end GlyphRules.Shaping
