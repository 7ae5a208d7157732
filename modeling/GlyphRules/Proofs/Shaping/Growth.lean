import Mathlib.Algebra.GroupWithZero.Nat
import GlyphRules.Proofs.Shaping.Called

/-! When a sweep ends.

A substitution passes over what it adds, and placing adds nothing, so the places left get fewer with
every pass. A chain passes over the glyphs that it matches, whatever the routines it calls have
added: a pass that applies one may leave as many places as before (`Stalls`). A sweep ends exactly
when it stops stalling, and only a chain stalls whose calls can add as many items as it matches
(`sweep_ends_iff`). `Book.added` bounds what a rule can add. -/
namespace GlyphRules

open List Rule Feature Book

variable {r : Rule} {s start t : Session} {classes : Classes} {at_ : Int} {moved : Option Int} {index n : Nat}

/-! ### What a rule can add -/

/-- What the rules of a called routine can add, one after the other. A substitution that adds
items is the last to be tried; after a chain the others may still follow. -/
def rowAdded (added : Rule → Nat) : List Rule → Nat
  | [] => 0
  | r :: rest =>
    match r.body with
    | .chaining _ => added r + rowAdded added rest
    | _ => Nat.max (added r) (rowAdded added rest)

def Book.callAdded (b : Book) (added : Rule → Nat) : Lookup → Nat
  | .ref { routine := some i, .. } => rowAdded added (b.rulesOf i)
  | _ => 0

/-- How many items a rule can add, with chains that call chains to some depth. -/
def Book.added (b : Book) : Nat → Rule → Nat
  | 0, _ => 0
  | depth + 1, r =>
    match r.body with
    | .substitution s => (s.replacement.getD []).length - 1
    | .chaining c => (c.calls.map fun calls => ((calls.getD []).map (b.callAdded (b.added depth))).sum).sum
    | _ => 0

namespace Shaping

open Step

/-! ### Views that show places of the buffer -/

def Buffer.Sound (b : Buffer) : Prop := b.view.places.Sublist (List.range b.items.length)

lemma Buffer.Sound.size_le {b : Buffer} (h : b.Sound) : b.view.size ≤ b.items.length := by
  have := h.length_le
  rwa [View.length_places, length_range] at this

namespace Shape

lemma remask_sound (h : remask.on s = (.ok (), t)) : t.buffer.Sound := by
  rw [remask, on_bind_ok (on_onBuffer _ s)] at h
  obtain ⟨v, hvisible, h⟩ := on_ask_bind h
  have shown := Buffer.visible_sublist hvisible
  cases h
  exact shown

lemma setMask_sound {flags} {filter attach}
    (h : (setMask flags filter attach).on s = (.ok (), t)) : t.buffer.Sound := by
  rw [setMask, on_bind_ok (on_onBuffer _ s)] at h
  exact remask_sound h

lemma update_sound (h : update.on s = (.ok (), t)) : t.buffer.Sound := by
  obtain ⟨b, u, -, hu⟩ := on_bind_eq_ok h
  obtain ⟨-, v, -, hv⟩ := on_bind_eq_ok hu
  exact remask_sound hv

/-! ### Substitutions -/

lemma length_eraseIdx_le {α : Type} (ps : List Nat) (l : List α) :
    (ps.foldl (fun l p => l.eraseIdx p) l).length ≤ l.length := by
  induction ps generalizing l with
  | nil => exact Nat.le_refl _
  | cons p ps ih => exact Nat.le_trans (ih _) (List.length_eraseIdx_le ..)

lemma length_setSlice {b c : Buffer} {first last} {new} (hb : b.Sound)
    (h : b.setSlice first last new = .ok c) : c.items.length ≤ b.items.length + (new.length - 1) := by
  unfold Buffer.setSlice at h
  split at h
  · next p hp =>
    cases h
    have hmem : p ∈ b.view.places := by
      have : p ∈ range b.view.places first last := by simp [hp]
      exact mem_of_mem_take (mem_of_mem_drop this)
    have hlt : p < b.items.length := mem_range.1 (hb.subset hmem)
    rw [show (p : Int) + 1 = p.succ by omega, replaceRange_nat b.items _ (Nat.le_succ p) hlt]
    simp only [length_append, length_take, length_drop]
    omega
  · cases h
  · split at h
    · cases h
      refine Nat.le_trans (length_eraseIdx_le _ _) ?_
      simp
    · cases h
  · cases h

lemma length_mapM {α β σ : Type} {f : α → Step σ β} {l : List α} {s t} {out}
    (h : (l.mapM f).on s = (.ok out, t)) : out.length = l.length := by
  induction l generalizing s out with
  | nil =>
    cases h
    rfl
  | cons a l ih =>
    obtain ⟨b, u, bs, -, hu, rfl⟩ := on_mapM_cons h
    simp [ih hu]

def SameLength (s t : Session) : Prop := t.buffer.items.length = s.buffer.items.length

instance : Trans SameLength SameLength SameLength := ⟨fun h k => k.trans h⟩

instance : OfSameGlyphs SameLength := ⟨SameGlyphs.length_eq⟩

/-- A substitution passes over what it adds, which is at most what it writes but one. -/
lemma substitute_length (hs : s.buffer.Sound)
    (h : (substitute classes sub at_).on s = (.ok moved, t)) :
    0 ≤ moved.getD 0 ∧ t.buffer.items.length ≤ s.buffer.items.length + (moved.getD 0).toNat ∧
      (moved.getD 0).toNat ≤ (sub.replacement.getD []).length - 1 := by
  unfold substitute at h
  split at h
  · next input output hi ho =>
    rw [ho]
    split at h
    · obtain ⟨_, u, hu, h⟩ := on_bind_eq_ok h
      cases h
      have same : SameLength s _ := (replaceOne_keeps (fun _ _ s => by simp [SameLength, Buffer.alter]) _ _ _ _).of_on hu
      exact ⟨Int.le_refl 0, Nat.le_of_eq same, Nat.zero_le _⟩
    · obtain ⟨found, -, h⟩ := on_ask_bind h
      obtain ⟨new, v, hv, h⟩ := on_bind_eq_ok h
      obtain ⟨b, hb, h⟩ := on_ask_bind h
      have same : v.buffer = s.buffer :=
        (Keeps.of_on (Keeps.mapM _ fun _ _ => likeItem_quiet _ _ _ _) hv : Quiet s v).buffer
      have hlength := length_setSlice (same ▸ hs) hb
      rw [same, length_mapM hv] at hlength
      cases h
      split
      · refine ⟨by simp; omega, Nat.le_trans hlength ?_, ?_⟩ <;> simp
      · simp
        omega
  · cases h

/-! ### Rules of any kind -/

/-- What is known of a way to apply rules: a bound on what it adds, and that only chains add
more than they pass over. -/
structure Bounded (start : Session) (added : Rule → Nat) (apply : Rule → Int → Shape (Option Int)) : Prop where
  rules : ∀ r at_, Keeps SameRules (apply r at_)
  adds : ∀ {r at_ s t moved}, SameRules start s → s.buffer.Sound → (apply r at_).on s = (.ok moved, t) →
    t.buffer.items.length ≤ s.buffer.items.length + added r
  passes : ∀ {r at_ s t moved}, SameRules start s → s.buffer.Sound → (apply r at_).on s = (.ok moved, t) →
    (∀ c, r.body ≠ .chaining c) → t.buffer.items.length ≤ s.buffer.items.length + (moved.getD 0).toNat

section Chain
variable {added : Rule → Nat} {apply : Rule → Int → Shape (Option Int)} (h : Bounded start added apply)
include h

lemma tryRules_length {filter} {rules} (hs : SameRules start s)
    (ht : (tryRules apply classes filter index rules).on s = (.ok (), t)) :
    t.buffer.items.length ≤ s.buffer.items.length + rowAdded added rules := by
  induction rules generalizing s with
  | nil =>
    cases ht
    exact Nat.le_add_right _ _
  | cons r rest ih =>
    obtain ⟨_, s₁, h₁, ht⟩ := on_bind_eq_ok ht
    obtain ⟨at_, s₂, h₂, ht⟩ := on_bind_eq_ok ht
    obtain ⟨fits, s₃, h₃, ht⟩ := on_bind_eq_ok ht
    have seen : SameGlyphs s s₁ := (setMask_sameGlyphs _ _ _).of_on h₁
    have asked : Quiet s₁ s₂ := (ask_quiet _).of_on h₂
    have quiet : Quiet s₁ s₃ := (wouldApply_quiet _ _ _).after asked h₃
    have rules₃ : SameRules start s₃ := Trans.trans hs (Trans.trans seen.toSameRules quiet.toSameRules)
    have length₃ : s₃.buffer.items.length = s.buffer.items.length := by rw [quiet.buffer, seen.length_eq]
    have sound₃ : s₃.buffer.Sound := quiet.buffer ▸ setMask_sound h₁
    obtain ⟨first, others⟩ : added r ≤ rowAdded added (r :: rest) ∧ rowAdded added rest ≤ rowAdded added (r :: rest) := by
      rw [rowAdded]
      grind
    cases fits with
    | false =>
      have := ih rules₃ ht
      omega
    | true =>
      obtain ⟨moved, s₄, h₄, ht⟩ := on_bind_eq_ok ht
      have adds := h.adds rules₃ sound₃ h₄
      have rules₄ : SameRules start s₄ := (h.rules r at_).after rules₃ h₄
      -- A rule that asks to pass over nothing has added nothing unless it is a chain; only then are the others tried.
      have still (hmoved : moved.getD 0 = 0) :
          s₄.buffer.items.length + rowAdded added rest ≤ s₃.buffer.items.length + rowAdded added (r :: rest) := by
        by_cases hchain : ∃ c, r.body = .chaining c
        · obtain ⟨c, hc⟩ := hchain
          simp only [rowAdded, hc]
          omega
        · have passes := h.passes rules₃ sound₃ h₄ fun c hc => hchain ⟨c, hc⟩
          omega
      split at ht
      · have := ih rules₄ ht
        have := still rfl
        omega
      · have := ih rules₄ ht
        have := still rfl
        omega
      · cases ht
        omega

lemma callAll_length {calls} (hs : SameRules start s)
    (ht : (callAll apply classes index calls).on s = (.ok (), t)) :
    t.buffer.items.length ≤ s.buffer.items.length + (calls.map (start.book.callAdded added)).sum := by
  induction calls generalizing s with
  | nil =>
    cases ht
    exact Nat.le_add_right _ _
  | cons l rest ih =>
    unfold callAll at ht
    split at ht
    · cases ht
      exact Nat.le_add_right _ _
    · cases ht
    · cases ht
    · next name i rest' heq =>
      cases heq
      rw [on_get_bind] at ht
      obtain ⟨_, u, hu, ht⟩ := on_bind_eq_ok ht
      have hu' := tryRules_length h hs hu
      have rules : SameRules start u := (tryRules_sameRules h.rules _ _ _ _).after hs hu
      have hrest := ih rules ht
      rw [hs.rulesOf_eq] at hu'
      simp only [map_cons, sum_cons, callAdded]
      omega

lemma forM_callAll_length {calls : Calls} {indices}
    (hs : SameRules start s) (ht : ((calls.zip indices).forM fun (calls, index) =>
      callAll apply classes index (calls.getD [])).on s = (.ok (), t)) :
    t.buffer.items.length ≤ s.buffer.items.length +
      (calls.map fun calls => ((calls.getD []).map (start.book.callAdded added)).sum).sum := by
  induction calls generalizing s indices with
  | nil =>
    cases ht
    exact Nat.le_add_right _ _
  | cons l rest ih =>
    cases indices with
    | nil =>
      cases ht
      exact Nat.le_add_right _ _
    | cons index indices =>
      obtain ⟨_, u, hu, ht⟩ := on_bind_eq_ok ht
      have hfirst := callAll_length h hs hu
      have rules : SameRules start u := (callAll_sameRules h.rules _ _ _).after hs hu
      have hrest := ih rules ht
      simp only [map_cons, sum_cons]
      omega

lemma chain_length (hs : SameRules start s) (ht : (chain apply classes c at_).on s = (.ok moved, t)) :
    t.buffer.items.length ≤ s.buffer.items.length +
        (c.calls.map fun calls => ((calls.getD []).map (start.book.callAdded added)).sum).sum ∧
      (moved = none ∧ t.buffer.items.length = s.buffer.items.length ∨
        ∃ input, c.input = some input ∧ moved = some (input.length - 1 : Int)) := by
  rw [chain, on_bind_ok (on_buffer s)] at ht
  split at ht
  · cases ht
    exact ⟨Nat.le_add_right _ _, .inl ⟨rfl, rfl⟩⟩
  · obtain ⟨indices, u, hu, ht⟩ := on_bind_eq_ok ht
    rw [on_ofExcept] at hu
    obtain ⟨-, rfl⟩ := Prod.mk.inj hu
    obtain ⟨_, v, hv, ht⟩ := on_bind_eq_ok ht
    obtain ⟨_, w, hw, ht⟩ := on_bind_eq_ok ht
    have length_w : SameLength v w := (setMask_sameGlyphs _ _ _).of_on hw
    have calls := forM_callAll_length h hs hv
    split at ht
    · next input hinput =>
      cases ht
      exact ⟨Nat.le_trans (Nat.le_of_eq length_w) calls, .inr ⟨input, hinput, rfl⟩⟩
    · cases ht

end Chain

lemma apply_bounded (start) (depth) (classes) :
    Bounded start (start.book.added depth) (apply depth classes) := by
  have still {s t} (h : SameLength s t) more :
      t.buffer.items.length ≤ s.buffer.items.length + more :=
    Nat.le_trans (Nat.le_of_eq h) (Nat.le_add_right _ _)
  induction depth generalizing classes with
  | zero =>
    refine ⟨apply_sameRules 0 classes, ?_, ?_⟩
    all_goals
      intro r at_ s t moved _ _ h
      cases h
  | succ depth ih =>
    refine ⟨apply_sameRules _ classes, ?_, ?_⟩
    · intro r at_ s t moved hs hsound h
      unfold apply at h
      split at h
      · next sub hsub =>
        obtain ⟨-, hlength, hadded⟩ := substitute_length hsound h
        simp only [added, hsub]
        omega
      · exact still ((place_sameGlyphs _ _).of_on h) _
      · exact still ((attach_sameGlyphs _ _ _).of_on h) _
      · next c hc =>
        simp only [added, hc]
        exact (chain_length (ih []) hs h).1
    · intro r at_ s t moved hs hsound h hother
      unfold apply at h
      split at h
      · exact (substitute_length hsound h).2.1
      · exact still ((place_sameGlyphs _ _).of_on h) _
      · exact still ((attach_sameGlyphs _ _ _).of_on h) _
      · next c hc => exact absurd hc (hother c)

/-! ### Passes -/

lemma wouldApply_input (h : (wouldApply classes r at_).on s = (.ok true, t)) (hr : ∀ a, r.body ≠ .attachment a) :
    ∃ input, r.input = some input ∧ input ≠ [] := by
  obtain ⟨text, s₁, -, h⟩ := on_bind_eq_ok h
  obtain ⟨_, s₂, -, h⟩ := on_bind_eq_ok h
  obtain ⟨v, verdict, h⟩ := on_ask_bind h
  obtain ⟨_, s₃, -, h⟩ := on_bind_eq_ok h
  have fits : v.fits = true := Except.ok.inj (Prod.mk.inj h).1
  rw [ruleMatches_eq hr] at verdict
  obtain ⟨input, hinput, verdict⟩ := bind_eq_ok.1 verdict
  refine ⟨input, ?_, ?_⟩
  · unfold inputOf at hinput
    split at hinput
    · next i hi =>
      cases hinput
      exact hi
    · cases hinput
  · rintro rfl
    cases verdict
    cases fits

/-- A rule that fits never moves back, and adds no more than it passes over unless it is a chain. -/
lemma apply_passes (hs : SameRules start s) (hsound : s.buffer.Sound) (hinput : (∀ a, r.body ≠ .attachment a) →
      ∃ input, r.input = some input ∧ input ≠ [])
    (h : (apply chainDepth classes r n).on s = (.ok moved, t)) :
    0 ≤ moved.getD 0 ∧ (t.buffer.items.length ≤ s.buffer.items.length + (moved.getD 0).toNat ∨
      ∃ c input, r.body = .chaining c ∧ c.input = some input ∧ moved.getD 0 = (input.length - 1 : Int) ∧
        t.buffer.items.length ≤ s.buffer.items.length + start.book.added chainDepth r) := by
  have bounded := apply_bounded start chainDepth classes
  by_cases hchain : ∃ c, r.body = .chaining c
  · obtain ⟨c, hc⟩ := hchain
    have adds := bounded.adds hs hsound h
    obtain ⟨input, hi, hne⟩ := hinput (by simp [hc])
    have hpos := length_pos_iff.2 hne
    have hci : c.input = some input := by simpa [Rule.input, hc] using hi
    rw [show chainDepth = 899 + 1 from rfl, apply] at h
    simp only [hc] at h
    rcases (chain_length (apply_bounded start 899 []) hs h).2 with ⟨rfl, hlength⟩ | ⟨input', hi', rfl⟩
    · exact ⟨Int.le_refl 0, .inl (by simp [hlength])⟩
    · cases hci.symm.trans hi'
      exact ⟨by simp; omega, .inr ⟨c, input, hc, hci, rfl, adds⟩⟩
  · have hother : ∀ c, r.body ≠ .chaining c := fun c hc => hchain ⟨c, hc⟩
    refine ⟨?_, .inl (bounded.passes hs hsound h hother)⟩
    rw [show chainDepth = 899 + 1 from rfl, apply] at h
    split at h
    · exact (substitute_length hsound h).1
    · next p hp =>
      obtain ⟨input, hi, hne⟩ := hinput (by simp [hp])
      have hpos := length_pos_iff.2 hne
      have hglyphs : p.glyphs = input := by simpa [Rule.input, hp] using hi
      rw [place, on_bind_ok (on_buffer _)] at h
      obtain ⟨count, s₁, -, h⟩ := on_bind_eq_ok h
      obtain ⟨_, s₂, -, h⟩ := on_bind_eq_ok h
      split at h
      · cases h
      · rw [← Except.ok.inj (Prod.mk.inj h).1]
        split
        · simp only [Option.getD_some, hglyphs]
          omega
        · exact Int.le_refl 0
    · unfold attach at h
      split at h
      all_goals
        obtain ⟨_, u, -, h⟩ := on_bind_eq_ok h
        cases h
        exact Int.le_refl 0
    · next c hc => exact absurd hc (hother c)

/-- How the length of the buffer and the place go together: the place moves on, and behind what
was added, unless a chain was applied. -/
def Passes (b : Book) (rules : List RuleId) (before after : Nat) (moved : Int) : Prop :=
  0 ≤ moved ∧ (after ≤ before + moved.toNat ∨
    ∃ rule ∈ rules, ∃ c input, (b.rule rule).body = .chaining c ∧ c.input = some input ∧
      moved = (input.length - 1 : Int) ∧ after ≤ before + b.added chainDepth (b.rule rule))

lemma Passes.cons {rules} {before after} {moved}
    (h : Passes b rules before after moved) (rule) : Passes b (rule :: rules) before after moved := by
  obtain ⟨hmoved, h⟩ := h
  refine ⟨hmoved, h.imp_right ?_⟩
  rintro ⟨i, hi, h⟩
  exact ⟨i, mem_cons_of_mem _ hi, h⟩

lemma applyAt_passes {id} {rule} {moved} (hs : SameRules start s) (hsound : s.buffer.Sound)
    (hinput : (∀ a, (start.book.rule rule).body ≠ .attachment a) →
      ∃ input, (start.book.rule rule).input = some input ∧ input ≠ [])
    (h : (applyAt classes id rule (start.book.rule rule) n).on s = (.ok moved, t)) :
    SameRules start t ∧ t.buffer.Sound ∧
      Passes start.book [rule] s.buffer.items.length t.buffer.items.length moved := by
  obtain ⟨text, s₁, h₁, h⟩ := on_bind_eq_ok h
  obtain ⟨_, s₂, h₂, h⟩ := on_bind_eq_ok h
  obtain ⟨answer, s₃, h₃, h⟩ := on_bind_eq_ok h
  rw [on_bind_ok (on_modify _ s₃)] at h
  obtain ⟨_, s₄, h₄, h⟩ := on_bind_eq_ok h
  cases h
  have written : Quiet s s₁ := (write_quiet _).of_on h₁
  have quiet : Quiet s s₂ := (sayDetail_quiet _).after written h₂
  have rules₂ : SameRules start s₂ := Trans.trans hs quiet.toSameRules
  have same : SameGlyphs _ t := update_sameGlyphs.of_on h₄
  have rules₃ : SameRules s₂ s₃ := (apply_sameRules _ _ _ _).of_on h₃
  have rules₄ : SameRules s₃ t := ⟨same.rules, same.routines, same.font⟩
  have length₄ : t.buffer.items.length = s₃.buffer.items.length := same.length_eq
  obtain ⟨hmoved, hlength⟩ := apply_passes rules₂ (quiet.buffer ▸ hsound) hinput h₃
  rw [quiet.buffer, ← length₄] at hlength
  refine ⟨Trans.trans rules₂ (Trans.trans rules₃ rules₄), update_sound h₄, hmoved, hlength.imp_right ?_⟩
  intro hchain
  exact ⟨rule, mem_cons_self .., hchain⟩

lemma tryAt_passes {id} {routine} {rules} {moved}
    (hs : SameRules start s) (hsound : s.buffer.Sound)
    (h : (tryAt classes stage id routine n rules).on s = (.ok moved, t)) :
    SameRules start t ∧ t.buffer.Sound ∧ Passes start.book rules s.buffer.items.length t.buffer.items.length moved := by
  induction rules generalizing s with
  | nil =>
    cases h
    exact ⟨hs, hsound, Int.le_refl 0, .inl (Nat.le_add_right _ _)⟩
  | cons rule rest ih =>
    rw [tryAt, on_get_bind] at h
    simp only [hs.rule_eq] at h
    obtain ⟨skip, s₁, h₁, h⟩ := on_bind_eq_ok h
    have quiet₁ : Quiet s s₁ := (skips_quiet _ _).of_on h₁
    have rules₁ : SameRules start s₁ := Trans.trans hs quiet₁.toSameRules
    cases skip with
    | true =>
      obtain ⟨rules, sound, passes⟩ := ih rules₁ (quiet₁.buffer ▸ hsound) h
      rw [quiet₁.buffer] at passes
      exact ⟨rules, sound, passes.cons rule⟩
    | false =>
      obtain ⟨_, s₂, h₂, h⟩ := on_bind_eq_ok h
      obtain ⟨fits, s₃, h₃, h⟩ := on_bind_eq_ok h
      have seen : SameGlyphs s₁ s₂ := (setMask_sameGlyphs _ _ _).of_on h₂
      have quiet₃ : Quiet s₂ s₃ := (wouldApply_quiet _ _ _).of_on h₃
      have rules₃ : SameRules start s₃ :=
        Trans.trans rules₁ (Trans.trans seen.toSameRules quiet₃.toSameRules)
      have sound₃ : s₃.buffer.Sound := quiet₃.buffer ▸ setMask_sound h₂
      have length₃ : s₃.buffer.items.length = s.buffer.items.length := by
        rw [quiet₃.buffer, seen.length_eq, quiet₁.buffer]
      rw [← length₃]
      cases fits with
      | true =>
        obtain ⟨rules, sound, hmoved, hlength⟩ := applyAt_passes rules₃ sound₃ (wouldApply_input h₃) h
        refine ⟨rules, sound, hmoved, hlength.imp_right ?_⟩
        rintro ⟨i, hi, hchain⟩
        exact ⟨i, mem_cons.2 (.inl (mem_singleton.1 hi)), hchain⟩
      | false =>
        obtain ⟨rules, sound, passes⟩ := ih rules₃ sound₃ h
        exact ⟨rules, sound, passes.cons rule⟩

/-! ### Sweeps -/

/-- A pass that moves on no further than the buffer grows. -/
def Stalls (pass : Nat → Shape (Option Nat)) (n : Nat) (s : Session) : Prop :=
  ∃ m t, (pass n).on s = (.ok (some m), t) ∧ m + s.buffer.items.length ≤ n + t.buffer.items.length

/-- A chain whose calls can add as many items as it matches. -/
def Outgrown (b : Book) (r : Rule) : Prop :=
  ∃ c input, r.body = .chaining c ∧ c.input = some input ∧ input.length ≤ b.added chainDepth r

section Sweep
variable {stage : Option Stage} {id : RoutineId} {routine : Routine} {rules : List RuleId} {m : Nat}

lemma pass_next (h : (pass classes stage id routine rules n).on s = (.ok (some m), t)) :
    n < s.buffer.view.size ∧ ∃ moved, (tryAt classes stage id routine n rules).on s = (.ok moved, t) ∧
      m = ((n : Int) + moved + 1).toNat := by
  rw [pass, on_bind_ok (on_buffer s)] at h
  split at h
  · next hlt =>
    obtain ⟨moved, u, hu, h⟩ := on_bind_eq_ok h
    cases h
    exact ⟨hlt, moved, hu, rfl⟩
  · cases h

/-- Before a pass: the rules are those of the start, and the view shows places of the buffer. -/
def Ready (start : Session) (_ : Nat) (s : Session) : Prop := SameRules start s ∧ s.buffer.Sound

lemma pass_ready (hs : Ready start n s)
    (h : (pass classes stage id routine rules n).on s = (.ok (some m), t)) : Ready start m t := by
  obtain ⟨-, moved, hmoved, -⟩ := pass_next h
  obtain ⟨hrules, hsound, -⟩ := tryAt_passes hs.1 hs.2 hmoved
  exact ⟨hrules, hsound⟩

/-- Only a chain stalls, and only one whose calls can add as many items as it matches. -/
lemma stalls_chain (hs : Ready start n s) (h : Stalls (pass classes stage id routine rules) n s) :
    ∃ rule ∈ rules, Outgrown start.book (start.book.rule rule) := by
  obtain ⟨m, t, hpass, hstall⟩ := h
  obtain ⟨-, moved, hmoved, rfl⟩ := pass_next hpass
  obtain ⟨-, -, hpos, hlength | ⟨rule, hrule, c, input, hc, hi, rfl, hlength⟩⟩ :=
    tryAt_passes hs.1 hs.2 hmoved
  · omega
  · exact ⟨rule, hrule, c, input, hc, hi, by omega⟩

/-- Without a stall, a pass leaves fewer places than it found. -/
lemma pass_measure (hs : Ready start n s) (h : (pass classes stage id routine rules n).on s = (.ok (some m), t))
    (hstall : ¬Stalls (pass classes stage id routine rules) n s) :
    t.buffer.items.length - m < s.buffer.items.length - n := by
  have hlt := (pass_next h).1
  have hsize := hs.2.size_le
  have : ¬m + s.buffer.items.length ≤ n + t.buffer.items.length := fun hle => hstall ⟨m, t, h, hle⟩
  omega

end Sweep

lemma enter_ready {routine} {feature} (h : (enter routine feature).on s = (.ok (), t)) :
    Ready s 0 t := by
  obtain ⟨_, u, hu, h⟩ := on_bind_eq_ok h
  have rules : SameRules s u := (setMask_sameGlyphs _ _ _).of_on hu
  split at h
  · cases h
    exact ⟨rules, setMask_sound hu⟩
  · cases h
    exact ⟨rules, setMask_sound hu⟩
  · obtain ⟨_, v, hv, h⟩ := on_bind_eq_ok h
    have marked : SameRules s v := (onBuffer_sameRules _).after rules hv
    exact ⟨remask_sameGlyphs.after marked h, remask_sound h⟩

end Shape

open Shape

/-! ### A chain that feeds itself -/

section Echo

/-- One glyph becomes two. -/
def doubling : Substitution := { input := some [["A"]], replacement := some [["A"], ["A"]] }

/-- A chain that has the glyph it matches doubled. -/
def echo : Chaining := { input := some [["A"]], calls := [some [.ref ⟨some (some "double"), some 0⟩]] }

def doublingSession (c : Chaining) (length : Nat) : Session :=
  { book :=
      { routines := #[{ content := .rules [0] }, { content := .rules [1] }]
        rules := #[Rule.ofBody (.substitution doubling), Rule.ofBody (.chaining c)] }
    font := ⟨[{ name := "A" }]⟩
    characters := {}
    buffer := { items := List.replicate length { glyph := some "A" } } }

/-- The chain before one glyph. -/
def echoSession : Session := doublingSession echo 1

lemma doubling_isRewriting : IsRewriting echoSession.font (Rule.ofBody (.substitution doubling)) := by decide

lemma echo_reads : Reads (echoSession.book.rule 1) :=
  ⟨rfl, by decide, by decide, by decide, by rintro a ⟨⟩⟩

variable {done : List String}

lemma write_echo (hs : SameRules echoSession s) :
    ∃ text t, (write (ofBody (.chaining echo))).on s = (.ok text, t) := by
  have written : Written "" (.chain .sub [] [.name "A"] [] [some [some (some "double")]]) :=
    ⟨⟨_, by rw [Statement.render]; rfl⟩, by decide⟩
  obtain ⟨text, htext⟩ : ∃ text, ruleText echoSession.book (ofBody (.chaining echo)) = .ok text :=
    written.text
  refine ⟨text, s, ?_⟩
  have quiet : ((ruleWarning? (ofBody (.chaining echo))).toList.forM warn).on s = (.ok (), s) := rfl
  rw [Shape.write, on_bind_ok quiet, on_get_bind, on_ofExcept, hs.ruleText_eq, htext]

lemma tryRules_doubling (classes) (hs : Stands echoSession s done ["A"]) :
    ∃ t, (tryRules (apply 899 []) classes none done.length
        [ofBody (.substitution doubling)]).on s = (.ok (), t) ∧
      Holds echoSession t (done ++ ["A"] ++ ["A"]) := by
  obtain ⟨s₁, h₁, stands, -⟩ := setMask_stands doubling_isRewriting.flags hs.holds none none
  have hlt : done.length < s₁.buffer.items.length := by
    rw [length_of_spells stands.spells]
    simp
  obtain ⟨s₂, h₂⟩ := wouldApply_reads classes doubling_isRewriting.reads
    (write_text doubling_isRewriting.text s₁) (stands.whole.sees stands.spells)
  have fits : (Rewrite.ofRule (Rule.ofBody (.substitution doubling))).fitsBetween done ["A"] = true := by
    simp [Rewrite.fitsBetween, Rewrite.ofRule, Rule.ofBody, Rule.input, Rule.before, Rule.after, doubling, fills]
  rw [fits] at h₂
  have tested := stands.quiet ((wouldApply_quiet _ _ _).of_on h₂)
  obtain ⟨t, ht, rewritten⟩ := @substitute_row _ _ _ doubling [] _ _ rfl rfl (by decide) (by decide) (by decide)
    (by decide) (tested.rules.font ▸ doubling_isRewriting.output) tested.whole tested.spells
  have left := tested.holds.rewritten ((substitute_sameRules _ _ _).of_on ht) rewritten
  refine ⟨t, ?_, by simpa using left⟩
  rw [tryRules, on_bind_ok h₁, on_bind_ok (on_ask_ok (stands.whole.placeOf hlt)), on_bind_ok h₂]
  simp only [if_true]
  rw [apply_substitution 898 [] rfl, on_bind_ok ht]
  rfl

lemma chain_echo (classes) (hs : Stands echoSession s done ["A"])
    (hflags : s.buffer.flags = .bits 0) :
    ∃ t, (chain (apply 899 []) classes echo done.length).on s = (.ok (some 0), t) ∧
      Stands echoSession t (done ++ ["A"]) ["A"] ∧ t.buffer.flags = .bits 0 := by
  have hlt : done.length < s.buffer.items.length := by
    rw [length_of_spells hs.spells]
    simp
  have rulesOf : s.book.rulesOf 0 = [ofBody (.substitution doubling)] := hs.rules.rulesOf_eq 0
  have routine : s.book.routine 0 = { content := .rules [0] } := hs.rules.routine_eq 0
  obtain ⟨u, hu, holds⟩ := tryRules_doubling classes hs
  have called : ((echo.calls.zip [done.length]).forM fun (calls, index) =>
      callAll (apply 899 []) classes index (calls.getD [])).on s = (.ok (), u) := by
    have one : (callAll (apply 899 []) classes done.length
        [.ref ⟨some (some "double"), some 0⟩]).on s = (.ok (), u) := by
      rw [Shape.callAll, on_get_bind]
      simp only [rulesOf, routine]
      rw [on_bind_ok hu]
      rfl
    exact on_bind_ok one _
  have plain : s.buffer.flags.counts = false := by rw [hflags]; rfl
  obtain ⟨t, ht, stands, hbits⟩ := setMask_stands plain holds (filterOf s.buffer.filter) none
  have indices : (List.range echo.calls.length).mapM
      (fun (i : Nat) => s.buffer.indexOf (done.length + i)) = .ok [done.length] := by
    have first : s.buffer.indexOf (done.length + (0 : Nat)) = .ok done.length := by
      rw [Int.natCast_zero, Int.add_zero, hs.whole.indexOf hlt]
    show [0].mapM _ = _
    rw [mapM_cons, first]
    rfl
  have hroom : ¬(s.buffer.view.size : Int) < done.length + echo.calls.length - 1 := by
    rw [hs.whole.size_eq, show echo.calls.length = 1 from rfl]
    omega
  refine ⟨t, ?_, stands, hbits⟩
  rw [chain, on_bind_ok (on_buffer s), if_neg hroom, indices, on_bind_ok (on_ofExcept _ s), on_bind_ok called,
    on_bind_ok ht]
  rfl

lemma pass_echo (classes) (hs : Stands echoSession s done ["A"]) :
    ∃ t, (pass classes none 1 (echoSession.book.routine 1) [1] done.length).on s =
        (.ok (some (done ++ ["A"]).length), t) ∧ Stands echoSession t (done ++ ["A"]) ["A"] := by
  obtain ⟨u, stands, hflags, htry⟩ := tryAt_reads classes none 1 (echoSession.book.routine 1) 1 []
    rfl echo_reads rfl (fun _ => write_echo) hs
  have fits : (Rewrite.ofRule (echoSession.book.rule 1)).fitsBetween done ["A"] = true := by
    rw [show echoSession.book.rule 1 = Rule.ofBody (.chaining echo) from rfl]
    simp [Rewrite.fitsBetween, Rewrite.ofRule, Rule.ofBody, Rule.input, Rule.before, Rule.after, echo, fills]
  obtain ⟨v, quiet, applied⟩ := applyAt_ready classes 1 1 done.length (write_echo stands.rules)
  obtain ⟨w, hw, left, hbits⟩ := chain_echo classes (stands.quiet quiet) (quiet.buffer ▸ hflags)
  obtain ⟨t, ht, hleft⟩ := applied hw left.holds hbits
  rw [if_pos fits] at htry
  exact ⟨t, pass_moves hs (cons_ne_nil _ _) (htry.trans ht) (by simp), hleft⟩

end Echo

/-- **A sweep ends exactly when it stops stalling.** Only a chain stalls whose calls can add as
many items as it matches, so a sweep without such chains ends. -/
theorem sweep_ends_iff (classes : Classes) (stage : Option Stage) (feature : Option String) (id : RoutineId)
    {s s₀ : Session} (h : (enter (s.book.routine id) feature).on s = (.ok (), s₀)) :
    let pass := pass classes stage id (s.book.routine id) (s.book.ruleIds id)
    ((loop pass 0 s₀).isSome ↔ ∃ bound, ∀ k ≥ bound, ∀ n t, after pass k 0 s₀ = some (n, t) → ¬Stalls pass n t) ∧
      (∀ k n t, after pass k 0 s₀ = some (n, t) → Stalls pass n t →
        ∃ rule ∈ s.book.ruleIds id, Outgrown s.book (s.book.rule rule)) ∧
      ((∀ rule ∈ s.book.ruleIds id, ¬Outgrown s.book (s.book.rule rule)) → (loop pass 0 s₀).isSome) := by
  intro pass
  have start : Ready s 0 s₀ := enter_ready h
  have ends := loop_ends_iff (Ready s) pass_ready start (fun n t => t.buffer.items.length - n) (Stalls pass)
    pass_measure
  have outgrown (k n t) (hk : after pass k 0 s₀ = some (n, t)) (hstall : Stalls pass n t) :
      ∃ rule ∈ s.book.ruleIds id, Outgrown s.book (s.book.rule rule) :=
    stalls_chain (after_invariant (Ready s) pass_ready start hk) hstall
  refine ⟨ends, outgrown, fun hfree => ends.2 ⟨0, fun k _ n t hk hstall => ?_⟩⟩
  obtain ⟨rule, hrule, hout⟩ := outgrown k n t hk hstall
  exact hfree rule hrule hout

/-- A chain on two glyphs that has the first one doubled. -/
def halting : Chaining :=
  { input := some [["A"], ["A"]], calls := [some [.ref ⟨some (some "double"), some 0⟩]] }

theorem sweep_ends_iff_halting :
    ∃ s₀, (enter ((doublingSession halting 3).book.routine 1) none).on (doublingSession halting 3) =
        (.ok (), s₀) ∧
      (loop (pass [] none 1 ((doublingSession halting 3).book.routine 1) [1]) 0 s₀).isSome := by
  refine ⟨_, rfl, ((sweep_ends_iff [] none none 1 rfl).2.2 ?_)⟩
  intro rule hrule
  obtain rfl : rule = 1 := List.mem_singleton.1 hrule
  rintro ⟨c, input, hc, hi, hle⟩
  cases hc
  cases hi
  revert hle
  decide

/-- **A chain that has the glyph it matches doubled never ends.** -/
theorem sweep_endless : ∃ s₀, (enter (echoSession.book.routine 1) none).on echoSession = (.ok (), s₀) ∧
    loop (pass [] none 1 (echoSession.book.routine 1) (echoSession.book.ruleIds 1)) 0 s₀ = none := by
  obtain ⟨s₀, h₀, stands⟩ : ∃ s₀, (enter (echoSession.book.routine 1) none).on echoSession = (.ok (), s₀) ∧
        Stands echoSession s₀ [] ["A"] := enter_clear rfl rfl (by rintro f - (hf | hf) <;> cases hf)
  refine ⟨s₀, h₀, ?_⟩
  let Inv (n : Nat) (s : Session) : Prop :=
    ∃ done : List String, done.length = n ∧ Stands echoSession s done ["A"]
  refine loop_endless Inv ?_ ⟨[], rfl, stands⟩
  rintro n s ⟨done, rfl, hs⟩
  obtain ⟨t, ht, ht'⟩ := pass_echo [] hs
  exact ⟨_, t, ht, _, rfl, ht'⟩

/-- **A sweep without chains ends.** Whatever the flags of its rules hide, every pass leaves fewer
items after the place where it stands. -/
theorem sweep_without_chains (classes : Classes) (stage : Option Stage) (feature : Option String) (id : RoutineId)
    {s s₀ : Session} (h : (enter (s.book.routine id) feature).on s = (.ok (), s₀))
    (hplain : ∀ rule ∈ s.book.ruleIds id, ∀ c, (s.book.rule rule).body ≠ .chaining c) :
    let pass := pass classes stage id (s.book.routine id) (s.book.ruleIds id)
    (∃ r t, loop pass 0 s₀ = some (r, t) ∧ (applyRoutine classes stage feature id).on s = (r, t)) ∧
      ∀ k n m t u, after pass k 0 s₀ = some (n, t) → (pass n).on t = (.ok (some m), u) →
        (u.buffer.items.length : Int) - m < t.buffer.items.length - n := by
  intro pass
  have start : Ready s 0 s₀ := enter_ready h
  have steady (k n t) (hk : after pass k 0 s₀ = some (n, t)) : ¬Stalls pass n t := by
    intro hstall
    obtain ⟨rule, hrule, c, -, hc, -⟩ :=
      stalls_chain (after_invariant (Ready s) pass_ready start hk) hstall
    exact hplain rule hrule c hc
  constructor
  · have ends := (loop_ends_iff (Ready s) pass_ready start (fun n t => t.buffer.items.length - n) (Stalls pass)
      pass_measure).2 ⟨0, fun k _ => steady k⟩
    obtain ⟨⟨r, t⟩, hloop⟩ := Option.isSome_iff_exists.1 ends
    refine ⟨r, t, hloop, ?_⟩
    unfold applyRoutine
    rw [on_get_bind, on_bind_ok h]
    exact congrArg (Option.getD · _) hloop
  · intro k n m t u hk hpass
    have moves : ¬m + t.buffer.items.length ≤ n + u.buffer.items.length :=
      fun hle => steady k n t hk ⟨m, u, hpass, hle⟩
    omega

theorem sweep_without_chains_doubling :
    ∃ s₀, (enter (echoSession.book.routine 0) none).on echoSession = (.ok (), s₀) ∧
      ∃ r t, loop (pass [] none 0 (echoSession.book.routine 0) [0]) 0 s₀ = some (r, t) := by
  obtain ⟨⟨r, t, hloop, -⟩, -⟩ := sweep_without_chains [] none none 0 (s := echoSession) rfl (by
    intro rule hrule c
    obtain rfl : rule = 0 := List.mem_singleton.1 hrule
    rintro ⟨⟩)
  exact ⟨_, rfl, r, t, hloop⟩

end Shaping
end GlyphRules
