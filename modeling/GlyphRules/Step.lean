import GlyphRules.Fault

/-! Steps on a state.

A `Step` changes a state and may fail; what it changed before stays changed. `Pass.loop` repeats a
step from place to place. What it goes over may grow meanwhile, so a loop has an outcome only if it
ends. -/
namespace GlyphRules

abbrev Step (σ : Type) := ExceptT Fault (StateM σ)

namespace Step
variable {σ α : Type}

def on (s : σ) (x : Step σ α) : Except Fault α × σ := x.run s

/-- A step at each place, which answers the next place or that there is none. -/
abbrev Pass (σ : Type) := Nat → Step σ (Option Nat)

/-- Repeat a step from place to place until there is no next one. -/
def Pass.loop (pass : Pass σ) (at_ : Nat) (s : σ) : Option (Except Fault Unit × σ) :=
  match (pass at_).on s with
  | (.ok (some next), s) => pass |>.loop next s
  | (.ok none, s) => some (.ok (), s)
  | (.error f, s) => some (.error f, s)
partial_fixpoint

export Pass (loop)

/-- A loop as a step, from the first place on. Without an end it never has a result. -/
def repeated (pass : Pass σ) : Step σ Unit :=
  fun s => (pass.loop 0 s).getD (.error .unfinished, s)

end Step
end GlyphRules
