import GlyphRules.Command.Workshop

/-! Commands that choose a variant of a glyph by the width of the next one.

A vowel sign that reaches over the following letter comes in several lengths. Letters that suit one
variant share a rule: the plain sign becomes the variant before any of them. -/
namespace GlyphRules.Command

namespace Phrase

def fitting : Phrase (Selection × Selection × Selection) := do
  let bases ← glyphs
  sign ":"
  let plain ← glyphs
  sign "->"
  let variants ← glyphs
  pure (bases, plain, variants)

/-- The same, with how much a variant may reach too far. -/
def fittingWithin (vars : Variables) : Phrase (Selection × Selection × Int × Selection) := do
  let bases ← glyphs
  sign ":"
  let plain ← glyphs
  let overshoot ← option (value vars)
  sign "->"
  let variants ← glyphs
  pure (bases, plain, overshoot.getD 0, variants)

end Phrase

def nearest (width : Number) : List (String × Number) → Option String
  | [] => none
  | (first, reach) :: more =>
    some (more.foldl (fun (best : String × Number) (m, reach) =>
      let distance := (reach - width).abs
      if Number.lt distance best.2 then (m, distance) else best) (first, (reach - width).abs)).1

def firstWithin (width : Number) (candidates : List (String × Number)) : Option String :=
  (candidates.find? fun c => Number.le c.2 width).map (·.1)

/-- Bases grouped by their variant, in order of first use. -/
def grouped (choices : List (String × String)) : List (String × List String) :=
  choices.foldl (fun groups (base, variant) => Dict.alter groups variant [] (· ++ [base])) []

def variantRules (plain : Slot) (groups : List (String × List String)) : List Rule :=
  groups.map fun (variant, bases) =>
    .ofBody (.substitution { input := some [plain], replacement := some [[variant]], after := [bases] })

/-- How far a glyph reaches beyond its width. -/
def overhang (g : Glyph) : Except Fault Number :=
  match g.rightMargin? with
  | some m => .ok (-m)
  | none => .error .wrongKind

/-- The stem of a letter: where its mark above sits, else where the mark of the vowel sign would
be, else the middle. -/
def stem (font : Font) (g : Glyph) : Number :=
  let at? (g : Glyph) (names : List String) := (g.anchors.find? fun a => names.contains a.name).map (·.x)
  match at? g ["abvm.e", "abvm"] with
  | some x => x
  | none =>
    match (font.find? "dvmE").bind (at? · ["_abvm.e", "_abvm"]) with
    | some x => g.width + x
    | none => g.width.div 2

def outlineWidth (g : Glyph) : Number := g.width - (g.rightMargin?.getD 0 + g.leftMargin?.getD 0)

namespace Craft

/-- Put before each letter the variant whose end is nearest to its stem. -/
def fitMatra (text : String) : Craft (List Product) := do
  let (bases, plain, variants) ← read (fun _ => Phrase.fitting) text
  let bases ← resolve bases
  let plain ← resolve plain
  let variants ← resolve variants
  let candidates ← variants.mapM fun m => do return (m, ← ofExcept (overhang (← glyph m)))
  let choices ← bases.mapM fun b => do
    let w := stem (← get).font (← glyph b)
    warn ("Stem location for " ++ b ++ ": " ++ w.text)
    match nearest w candidates with
    | some m => return (b, m)
    | none => throw .badValue
  return [.routine (← routineOf (variantRules plain (grouped choices)))]

/-- Put before each letter the first variant, by name from the end, that does not reach too far. -/
def fitMedial (text : String) : Craft (List Product) := do
  let (bases, plain, overshoot, variants) ← read Phrase.fittingWithin text
  let bases ← resolve bases
  let plain ← resolve plain
  let variants ← resolve variants
  let names := (Text.sort (Text.distinct (variants ++ plain))).reverse
  let candidates ← names.mapM fun m => do return (m, (← ofExcept (overhang (← glyph m))) + .int overshoot)
  let choices ← bases.filterMapM fun b => do
    return (firstWithin (outlineWidth (← glyph b)) candidates).map (b, ·)
  return [.routine (← routineOf (variantRules plain (grouped choices)))]

end Craft
end GlyphRules.Command
