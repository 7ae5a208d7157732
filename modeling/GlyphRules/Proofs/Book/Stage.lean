import GlyphRules.Book.Stage
import GlyphRules.Proofs.Step

/-! How the stage of a routine is found.

A routine has a stage of its own or leaves the question to another one (`Book.lead`).
Books whose routines lead alike give them the same stages, and a stage that was found
stays when the search may take more steps. -/
namespace GlyphRules

open Step

abbrev Lead := Option Stage ⊕ RoutineId

/-- The routine that a call leads to. -/
def Lookup.target : Lookup → Except Fault RoutineId
  | .bare r => .ok r
  | .ref { routine := none, .. } => .error (.refused .unresolvedReference)
  | .ref { routine := some r, .. } => .ok r

def Calls.lead (c : Calls) : Except Fault Lead :=
  match c.first? with
  | none => .ok (.inl none)
  | some l => do return .inr (← l.target)

def Rule.lead (r : Rule) : Except Fault Lead :=
  match r.body with
  | .substitution _ => .ok (.inl (some .sub))
  | .positioning _ => .ok (.inl (some .pos))
  | .attachment _ => .ok (.inl (some .pos))
  | .chaining c => c.calls.lead

namespace Book

def lead (b : Book) (i : RoutineId) : Except Fault Lead :=
  match (b.routine i).content with
  | .missing => .error .missingPart
  | .extension [] => .error .outOfRange
  | .extension (r :: _) => .ok (.inr r)
  | .rules [] => .ok (.inl none)
  | .rules (r :: _) => (b.rule r).lead

def follow (ask : RoutineId → Except Fault (Option Stage)) : Lead → Except Fault (Option Stage)
  | .inl stage => .ok stage
  | .inr i => ask i

lemma routineStageWithin_succ (b : Book) (fuel) (i) :
    b.routineStageWithin (fuel + 1) i = b.lead i >>= follow (b.routineStageWithin fuel) := by
  rw [lead, routineStageWithin]
  rcases (b.routine i).content with (_ | ⟨r, _⟩) | (_ | ⟨r, _⟩) | _
  · rfl
  · simp only [Rule.lead]
    rcases (b.rule r).body with _ | _ | c | _
    · rfl
    · rfl
    · simp only [Calls.lead]
      rcases c.calls.first? with _ | (_ | ⟨_, _ | _⟩) <;> rfl
    · rfl
  · rfl
  · rfl
  · rfl

lemma callsStage_eq (b : Book) (c) : b.callsStage c = c.lead >>= follow b.routineStage := by
  unfold callsStage Calls.lead
  rcases c.first? with _ | (_ | ⟨_, _ | _⟩) <;> rfl

lemma routineStageWithin_congr {b b' : Book} (h : ∀ i, b'.lead i = b.lead i) (fuel) (i) :
    b'.routineStageWithin fuel i = b.routineStageWithin fuel i := by
  induction fuel generalizing i with
  | zero => rfl
  | succ fuel ih => rw [routineStageWithin_succ, routineStageWithin_succ, h, funext ih]

/-- A stage that was found is found in any greater number of steps. -/
lemma routineStageWithin_mono {b : Book} {fuel more} {i} {stage}
    (h : b.routineStageWithin fuel i = .ok stage) (hle : fuel ≤ more) :
    b.routineStageWithin more i = .ok stage := by
  induction fuel generalizing more i with
  | zero => cases h
  | succ fuel ih =>
    obtain ⟨more, rfl⟩ := Nat.exists_eq_add_one.2 (Nat.lt_of_lt_of_le (Nat.zero_lt_succ fuel) hle)
    rw [routineStageWithin_succ] at h ⊢
    obtain ⟨l, hl, h⟩ := bind_eq_ok.1 h
    rw [hl]
    cases l with
    | inl => exact h
    | inr j => exact ih h (Nat.le_of_succ_le_succ hle)

end Book
end GlyphRules
