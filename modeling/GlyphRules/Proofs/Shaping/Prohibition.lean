import Mathlib.Data.List.Induction
import GlyphRules.Shaping.ConstraintSet

/-! What a set of prohibited sequences prohibits.

Adding a sequence prohibits the texts that start with it, unless the set already branches all along it and more
has to follow: then the sequence is lost. So a set prohibits exactly what was added if and only if no sequence
was lost on the way (`ofList_prohibits_iff`). -/
namespace GlyphRules.Shaping.ConstraintSet

open List

/-- The set branches all along a sequence, and more has to follow. -/
def Passes : List Nat → ConstraintSet → Prop
  | [], s => s ≠ .sequence []
  | _ :: _, .sequence _ => False
  | k :: rest, .branches entries => (∃ s, (k, s) ∈ entries) ∧ ∀ s, (k, s) ∈ entries → Passes rest s

variable {k c first : Nat} {rest text codes : List Nat} {s : ConstraintSet} {entries : List (Nat × ConstraintSet)}
  {f : ConstraintSet → ConstraintSet}

lemma prohibitsAfter_iff : prohibitsAfter entries c text ↔ ∃ s, (c, s) ∈ entries ∧ s.prohibits text := by
  induction entries with
  | nil => simp [prohibitsAfter]
  | cons e entries ih =>
    simp only [prohibitsAfter, Bool.or_eq_true, Bool.and_eq_true, beq_iff_eq, ih, mem_cons]
    grind

lemma mem_insert : (k, s) ∈ insert first rest f entries ↔
    (∃ s₀, (k, s₀) ∈ entries ∧ s = if k = first then f s₀ else s₀) ∨
      (∀ s₀, (first, s₀) ∉ entries) ∧ k = first ∧ s = .sequence rest := by
  unfold insert
  grind

/-! ### Adding -/

lemma prohibitsAfter_insert (hf : ∀ s, (f s).prohibits text ↔ s.prohibits text ∨ rest <+: text ∧ ¬Passes rest s) :
    prohibitsAfter (insert first rest f entries) c text ↔
      prohibitsAfter entries c text ∨ c = first ∧ rest <+: text ∧ ¬Passes (first :: rest) (.branches entries) := by
  simp only [prohibitsAfter_iff, mem_insert]
  constructor
  · rintro ⟨s, ⟨s₀, hs₀, rfl⟩ | ⟨hnew, rfl, rfl⟩, hs⟩
    · split at hs
      · next heq =>
        subst heq
        exact ((hf s₀).1 hs).imp (fun hs => ⟨s₀, hs₀, hs⟩) fun h => ⟨rfl, h.1, fun hpass => h.2 (hpass.2 s₀ hs₀)⟩
      · exact .inl ⟨s₀, hs₀, hs⟩
    · exact .inr ⟨rfl, isPrefixOf_iff_prefix.1 hs, fun hpass => hpass.1.elim hnew⟩
  · rintro (⟨s, hs, hold⟩ | ⟨rfl, hstart, hpass⟩)
    · refine ⟨_, .inl ⟨s, hs, rfl⟩, ?_⟩
      split
      · exact (hf s).2 (.inl hold)
      · exact hold
    · by_cases hnew : ∀ s, (c, s) ∉ entries
      · exact ⟨_, .inr ⟨hnew, rfl, rfl⟩, isPrefixOf_iff_prefix.2 hstart⟩
      · obtain ⟨s, hs, hlost⟩ : ∃ s, (c, s) ∈ entries ∧ ¬Passes rest s := by grind [Passes]
        exact ⟨_, .inl ⟨s, hs, (if_pos rfl).symm⟩, (hf s).2 (.inr ⟨hstart, hlost⟩)⟩

lemma prohibits_branches_insert
    (hf : ∀ s text, (f s).prohibits text ↔ s.prohibits text ∨ rest <+: text ∧ ¬Passes rest s) :
    (branches (insert first rest f entries)).prohibits text ↔
      (branches entries).prohibits text ∨ first :: rest <+: text ∧ ¬Passes (first :: rest) (.branches entries) := by
  cases text with
  | nil => simp [prohibits]
  | cons c text =>
    simp only [prohibits, prohibitsAfter_insert (hf · text), cons_prefix_cons, and_assoc, eq_comm]

/-- **A sequence that is added is prohibited, unless the set branches all along it and more has to follow.** -/
lemma prohibits_add : (add codes s).prohibits text ↔ s.prohibits text ∨ codes <+: text ∧ ¬Passes codes s := by
  induction codes generalizing s text with
  | nil =>
    have holds (h : s = .sequence []) : s.prohibits text = true := by rw [h]; rfl
    simpa [add, Passes] using holds
  | cons first rest ih =>
    have hrest (s text) := @ih text s
    cases s with
    | branches entries => exact prohibits_branches_insert hrest
    | sequence codes =>
      have old : (sequence codes).prohibits text ↔ codes <+: text := isPrefixOf_iff_prefix
      rw [old, Passes, not_false_iff, and_true]
      unfold add
      split
      · next h =>
        exact isPrefixOf_iff_prefix.trans (or_iff_right_of_imp ( isPrefixOf_iff_prefix.1 h).trans).symm
      · next h =>
        cases codes with
        | nil => simp [prohibits]
        | cons c cs =>
          dsimp only
          split
          · next h' => exact old.trans (or_iff_left_of_imp ( isPrefixOf_iff_prefix.1 h').trans).symm
          · have alone : (branches [(c, .sequence cs)]).prohibits text ↔ c :: cs <+: text := by
              cases text <;> simp [prohibits, prohibitsAfter]
            -- The two part somewhere, so the new one goes on where they part.
            have apart : ¬Passes (first :: rest) (.branches [(c, .sequence cs)]) := by
              rintro ⟨⟨s, hs⟩, hpass⟩
              cases mem_singleton.1 hs
              cases rest with
              | nil => simp at h
              | cons => exact hpass _ hs
            rw [prohibits_branches_insert hrest, alone, and_iff_left apart]

/-! ### Many sequences -/

lemma passes_add (h : Passes codes s) (more) : Passes codes (add more s) := by
  induction codes generalizing s more with
  | nil =>
    cases more with
    | nil => exact h
    | cons first more =>
      cases s with
      | sequence codes => cases codes <;> grind [Passes, add]
      | branches entries => exact ConstraintSet.noConfusion
  | cons k rest ih =>
    cases more with
    | nil => exact h
    | cons first more =>
      cases s with
      | sequence codes => exact h.elim
      | branches entries =>
        obtain ⟨⟨s₀, hs₀⟩, hpass⟩ := h
        refine ⟨⟨_, mem_insert.2 (.inl ⟨s₀, hs₀, rfl⟩)⟩, fun s hs => ?_⟩
        obtain ⟨s, hs', rfl⟩ | ⟨hnew, rfl, -⟩ := mem_insert.1 hs
        · split
          · exact ih (hpass s hs') more
          · exact hpass s hs'
        · exact absurd hs₀ (hnew s₀)

lemma not_prohibits_of_passes (h : Passes codes s) : ¬s.prohibits codes := by
  induction codes generalizing s with
  | nil =>
    cases s with
    | sequence codes => simpa [Passes, prohibits] using h
    | branches entries => exact Bool.false_ne_true
  | cons k rest ih =>
    cases s with
    | sequence codes => exact h.elim
    | branches entries =>
      intro hprohibits
      obtain ⟨s, hs, hrest⟩ := prohibitsAfter_iff.1 hprohibits
      exact ih (h.2 s hs) hrest

lemma ofList_append (first) (done later) :
    ofList first (done ++ later) = later.foldl (fun s codes => add codes s) (ofList first done) := foldl_append

/-- **A set prohibits exactly the texts that start with a sequence that was added, if and only if it never
branched all along a sequence with more to follow when that was added.** -/
theorem ofList_prohibits_iff (first : List Nat) (more : List (List Nat)) :
    (∀ text, (ofList first more).prohibits text ↔ ∃ codes ∈ first :: more, codes <+: text) ↔
      ∀ done codes later, more = done ++ codes :: later → ¬Passes codes (ofList first done) := by
  constructor
  · rintro h done codes later rfl hpass
    have still : Passes codes (ofList first (done ++ codes :: later)) := by
      rw [ofList_append]
      exact foldlRecOn (motive := Passes codes) _ _ hpass fun s hs more _ => passes_add hs more
    exact not_prohibits_of_passes still ((h codes).2 ⟨codes, by simp, prefix_rfl⟩)
  · intro h text
    induction more using reverseRecOn with
    | nil => simp [ofList, prohibits]
    | append_singleton more codes ih =>
      rw [ofList_append, foldl_cons, foldl_nil, prohibits_add, ih fun done codes' later heq => ?_]
      · grind
      · exact h done codes' (later ++ [codes]) (by simp [heq])

/-- A pair is lost if the set branches at its second code point for a longer sequence. -/
theorem ofList_loses_pair : (ofList [1, 2, 3, 4] [[1, 5], [1, 2]]).prohibits [1, 2] = false := by
  decide

end GlyphRules.Shaping.ConstraintSet
