import GlyphRules.Command.Workshop
import GlyphRules.Font.Distance

/-! The command that kerns glyphs to a distance.

Each glyph of one side is brought to the distance from each of the other. Joined glyphs that follow
lift the first glyph by their rise. A kern below five units is not worth a rule. -/
namespace GlyphRules.Command

namespace Phrase

structure KernForm where
  left : Selection
  right : Selection
  distance : Int
  context : List Selection := []

def kern (vars : Variables) : Phrase KernForm :=
  either
    (do
      let left ← glyphs
      let right ← glyphs
      let distance ← value vars
      pure { left, right, distance })
    do
      let context ← many glyphs
      sign "("
      let left ← glyphs
      let right ← glyphs
      sign ")"
      let distance ← value vars
      pure { left, right, distance, context }

end Phrase

def kernRules (font : Font) (left right : List String) (distance rise : Int) (context : List Slot)
    (reversed : Bool) : Except Fault (List Rule) := do
  let pairs := left.flatMap fun l => right.map fun r => (l, r)
  let rules ← pairs.mapM fun (l, r) => do
    let a ← font.get (if reversed then r else l)
    let b ← font.get (if reversed then l else r)
    let k ← Outline.kern a b distance rise
    if k.natAbs < 5 then return none
    return some (Rule.ofBody (.positioning
      { glyphs := [[r]], values := [some { xAdvance := some (.fixed (.int k)) }], before := [[l]], after := context }))
  return rules.filterMap id

def choices {α : Type} : List (List α) → List (List α)
  | [] => [[]]
  | l :: ls => l.flatMap fun a => (choices ls).map (a :: ·)

namespace Craft

def kernToDistance (text : String) : Craft (List Product) := do
  let form ← read Phrase.kern text
  let left ← resolve form.left
  let right ← resolve form.right
  let context ← resolveAll form.context
  let font := (← get).font
  let rules ←
    if context.isEmpty then ofExcept (kernRules font left right form.distance 0 [] false)
    else do
      let bins ← ofExcept (context.mapM fun l => font.bins l .rise 5)
      let rules ← (choices bins).mapM fun c =>
        ofExcept (kernRules font left right form.distance ((c.map (·.2)).foldl (· + ·) 0) (c.map (·.1)) true)
      pure rules.flatten
  return [.routine (← routineOf rules)]

end Craft
end GlyphRules.Command
