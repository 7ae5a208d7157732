import GlyphRules.Command.Rules
import GlyphRules.Proofs.Step

/-! What selections stand for, and what backreferences mean.

A command that only asks for glyphs adds notes and changes nothing else, so its answer does not depend on what was asked
before (`Asks`). A backreference stands for a selection of the left side with the suffixes of the last backreference to it,
in place of its own (`substitution_backreferences_iff`). -/
namespace GlyphRules.Command

open Step Phrase List

variable {α β : Type} {w : Workshop}

def Workshop.noting (w : Workshop) (notes : List String) : Workshop :=
  { w with book := { w.book with warnings := w.book.warnings ++ notes } }

lemma Workshop.noting_noting (w : Workshop) (notes more) :
    (w.noting notes).noting more = w.noting (notes ++ more) := by simp [noting]

/-- What a selection stands for. -/
def Selection.stands (s : Selection) (w : Workshop) : Except Fault (List String) :=
  ((s.resolve w.book.namedClasses w.font).on []).1

/-- The answer is the same whatever has been noted, and all that is left of the question are notes. -/
def Asks (x : Craft α) (answer : Workshop → Except Fault α) : Prop :=
  ∀ w, (∀ notes, answer (w.noting notes) = answer w) ∧ ∃ notes, x.on w = (answer w, w.noting notes)

namespace Asks
variable {x : Craft α} {f : α → Craft β} {answer : Workshop → Except Fault α}

lemma noting_nil (w : Workshop) : w.noting [] = w := by simp [Workshop.noting]

lemma ofExcept (e) : Asks (MonadExcept.ofExcept e : Craft α) fun _ => e :=
  fun w => ⟨fun _ => rfl, [], by rw [on_ofExcept, noting_nil]⟩

lemma resolve (s) : Asks (Craft.resolve s) s.stands := fun w => ⟨fun _ => rfl, _, by
  unfold Craft.resolve Craft.noted
  rw [on_get_bind]
  exact (on_bind_ok (on_modify _ w) _).trans (on_ofExcept _ _)⟩

lemma bind {next : α → Workshop → Except Fault β} (hx : Asks x answer) (hf : ∀ a, Asks (f a) (next a)) :
    Asks (x >>= f) fun w => answer w >>= (next · w) := by
  intro w
  obtain ⟨same, notes, hrun⟩ := hx w
  beta_reduce
  refine ⟨fun more => by rw [same, funext fun a => (hf a w).1 more], ?_⟩
  cases ha : answer w with
  | error e => exact ⟨notes, on_bind_error (hrun.trans (by rw [ha])) f⟩
  | ok a =>
    obtain ⟨more, hmore⟩ := (hf a (w.noting notes)).2
    rw [(hf a w).1, w.noting_noting] at hmore
    exact ⟨_, (on_bind_ok (hrun.trans (by rw [ha])) f).trans hmore⟩

lemma on_ok (hx : Asks x answer) (ha : answer w = .ok a) (notes) :
    ∃ more, x.on (w.noting notes) = (.ok a, w.noting more) := by
  obtain ⟨more, hrun⟩ := (hx (w.noting notes)).2
  rw [(hx w).1, ha, w.noting_noting] at hrun
  exact ⟨_, hrun⟩

lemma pure (a : α) : Asks (Pure.pure a) fun _ => .ok a := ofExcept (.ok a)

lemma mapM {next : α → Workshop → Except Fault β} (h : ∀ a, Asks (f a) (next a)) (l : List α) :
    Asks (l.mapM f) fun w => l.mapM (next · w) := by
  induction l with
  | nil => exact pure []
  | cons a l ih =>
    simp only [mapM_cons]
    exact bind (h a) fun b => bind ih fun bs => pure (b :: bs)

end Asks

/-! ### Backreferences -/

/-- The selection that a backreference names. -/
def named (left : List Selection) (p : Nat) : Selection := (left[p - 1]?).getD { selector := .unknown "" }

/-- The selection of the left side, with the suffixes after its own. -/
def meant (left : List Selection) : Output → Selection
  | .selection s => s
  | .back p suffixes => { named left p with suffixes := (named left p).suffixes ++ suffixes }

/-- The selection of the left side, with the suffixes of the last backreference to it. -/
def taken (left : List Selection) (right : List Output) : Output → Selection
  | .selection s => s
  | .back p _ => { named left p with suffixes := (lastSuffixes left.length (p - 1) right).getD [] }

/-- The rule that a form and selections for its right side make. -/
def Phrase.SubstitutionForm.rule (f : SubstitutionForm) (reversal : Reversal) (right : List Selection) (w : Workshop) :
    Except Fault Rule := do
  let input ← f.left.mapM (·.stands w)
  let before ← f.before.mapM (·.stands w)
  let after ← f.after.mapM (·.stands w)
  let replacement ← right.mapM (·.stands w)
  return { body := .substitution { input := some input, replacement := some replacement, before, after, reversal },
           languages := some (.pairs f.languages) }

/-- Backreferences count from one to the length of the left side. -/
def InRange (left : List Selection) (right : List Output) : Prop :=
  ∀ p s, .back p s ∈ right → 0 < p ∧ p ≤ left.length

section
variable {left : List Selection} {right : List Output} {p : Nat} {s : List Suffix} (h : InRange left right)
include h

lemma lastSuffixes_back (hp : .back p s ∈ right) :
    ∃ t, lastSuffixes left.length (p - 1) right = some t ∧ .back p t ∈ right := by
  have target {q} (hq : 0 < q ∧ q ≤ left.length) : backTarget left.length q = some (q - 1) := by
    simp [backTarget, Nat.ne_of_gt hq.1, hq.2]
  obtain ⟨t, ht⟩ : ∃ t, lastSuffixes left.length (p - 1) right = some t := by
    refine Option.isSome_iff_exists.1 (findSome?_isSome_iff.2 ⟨_, mem_reverse.2 hp, ?_⟩)
    simp [target (h p s hp)]
  refine ⟨t, ht, ?_⟩
  obtain ⟨o, ho, hot⟩ := exists_of_findSome?_eq_some ht
  cases o with
  | selection => cases hot
  | back q u =>
    have hq := h q u (mem_reverse.1 ho)
    simp only [target hq, beq_iff_eq, Option.some.injEq, Option.ite_none_right_eq_some] at hot
    have same : q = p := by grind [h p s hp]
    exact hot.2 ▸ same ▸ mem_reverse.1 ho

lemma outputs_eq : outputs left right = .ok (right.map (taken left right)) := by
  refine mapM_ok fun o ho => ?_
  cases o with
  | selection => rfl
  | back p s =>
    obtain ⟨hp, hle⟩ := h p s ho
    obtain ⟨t, ht, -⟩ := lastSuffixes_back h ho
    have hlt : p - 1 < left.length := by omega
    simp [backTarget, Nat.ne_of_gt hp, hle, hlt, taken, named, ht]

lemma taken_eq_meant_iff : right.map (taken left right) = right.map (meant left) ↔
    ∀ p s, .back p s ∈ right → (named left p).suffixes = [] ∧ ∀ s', .back p s' ∈ right → s' = s := by
  rw [map_inj_left]
  have back {p s} (hp : .back p s ∈ right) : taken left right (.back p s) = meant left (.back p s) ↔
      lastSuffixes left.length (p - 1) right = some ((named left p).suffixes ++ s) := by
    obtain ⟨t, ht, -⟩ := lastSuffixes_back h hp
    simp [taken, meant, ht]
  constructor
  · intro heq p s hp
    obtain ⟨t, ht, htp⟩ := lastSuffixes_back h hp
    -- The last one is itself among those that come out as meant.
    have own := Option.some.inj (ht.symm.trans ((back htp).1 (heq _ htp)))
    have bare : (named left p).suffixes = [] := by simpa using own
    refine ⟨bare, fun s' hp' => ?_⟩
    have each {u} (hu : .back p u ∈ right) : t = u := by
      simpa [ht, bare] using (back hu).1 (heq _ hu)
    rw [← each hp', each hp]
  · intro hsame o ho
    cases o with
    | selection => rfl
    | back p s =>
      obtain ⟨t, ht, htp⟩ := lastSuffixes_back h ho
      obtain ⟨bare, same⟩ := hsame p s ho
      rw [back ho, ht, bare, same t htp, nil_append]

end

lemma substitution_asks (h : InRange f.left f.right) (reversal) :
    Asks (Craft.substitution f reversal) (f.rule reversal (f.right.map (taken f.left f.right))) := by
  rw [Craft.substitution, outputs_eq h]
  have asked l : Asks (Craft.resolveAll l) _ := .mapM .resolve l
  refine .bind (asked f.left) fun input => ?_
  refine .bind (asked f.before) fun before => ?_
  refine .bind (asked f.after) fun after => ?_
  exact .bind (.ofExcept (.ok _)) fun outputs => .bind (asked outputs) fun replacement => .pure _

/-- **A rule gets what its backreferences mean exactly when** no selection that they name has suffixes of its own and
those that name the same one have the same suffixes. In any case its input is what the left side stands for. -/
theorem substitution_backreferences_iff {f : SubstitutionForm} (h : InRange f.left f.right) (reversal : Reversal) :
    (∀ w, ((Craft.substitution f reversal).on w).1 = f.rule reversal (f.right.map (taken f.left f.right)) w) ∧
      (f.right.map (taken f.left f.right) = f.right.map (meant f.left) ↔
        ∀ p s, .back p s ∈ f.right → (named f.left p).suffixes = [] ∧ ∀ s', .back p s' ∈ f.right → s' = s) := by
  refine ⟨fun w => ?_, taken_eq_meant_iff h⟩
  obtain ⟨notes, hrun⟩ := (substitution_asks h reversal w).2
  rw [hrun]

/-- Of two backreferences the last decides for both. -/
theorem substitution_backreferences_clash :
    taken [{ selector := .name "a" }] [.back 1 [.added "x"], .back 1 [.added "y"]] (.back 1 [.added "x"]) ≠
      meant [{ selector := .name "a" }] (.back 1 [.added "x"]) := by
  simp [taken, meant, named, lastSuffixes, backTarget]

/-- Two alternates of one letter. -/
def twins : SubstitutionForm :=
  { left := [{ selector := .name "a" }], right := [.back 1 [.added "alt"], .back 1 [.added "alt"]] }

lemma inRange_twins : InRange twins.left twins.right := by
  intro p s hp
  obtain ⟨rfl, -⟩ : p = 1 ∧ _ := by simpa [twins] using hp
  decide

theorem substitution_backreferences_twins : InRange twins.left twins.right ∧
    twins.right.map (taken twins.left twins.right) = twins.right.map (meant twins.left) := by
  refine ⟨inRange_twins, (substitution_backreferences_iff inRange_twins .forward).2.2 fun p s hp => ?_⟩
  obtain ⟨rfl, rfl⟩ : p = 1 ∧ s = [.added "alt"] := by simpa [twins] using hp
  exact ⟨rfl, by simp [twins]⟩

end GlyphRules.Command
