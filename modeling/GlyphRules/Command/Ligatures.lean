import GlyphRules.Command.Workshop

/-! The command that finds ligatures by their names.

A ligature is named by its parts, joined with low lines. The names of glyphs are
tried as patterns, shorter ones first, and the most parts come first. -/
namespace GlyphRules.Command

def byLength (names : List String) : List String := names.mergeSort fun a b => decide (a.length ≤ b.length)

def ligaturePattern (names : List String) (parts : Nat) : String :=
  let group := "(" ++ Text.join "|" (byLength names) ++ ")"
  "^" ++ String.join (List.replicate parts (group ++ "_")) ++ group ++ "$"

def partsOf? (pattern : Text.Regex) (name : String) : Option (List String) :=
  (pattern.matchStart? name.toList).map fun p =>
    (p.kept.mergeSort fun a b => decide (a.1 ≤ b.1)).map fun (_, cs) => String.ofList cs

namespace Craft

def findLigatures (text : String) : Craft (List Product) := do
  let s ← read (fun _ => Phrase.glyphs) text
  let ligatures := byLength (← resolve s)
  let names := (← get).font.names
  let patterns := [5, 4, 3, 2, 1].map fun n => Text.Regex.read (ligaturePattern names n)
  let rules ← ligatures.filterMapM fun l => do
    for p in patterns do
      if let some parts := partsOf? (← ofExcept p) l then
        return some (Rule.ofBody (.substitution
          { input := some (parts.map fun c => [c]), replacement := some [[l]] }))
    return none
  return [.routine (← routineOf rules)]

end Craft
end GlyphRules.Command
