import GlyphRules.Command.Workshop

/-! Commands that change glyphs or show classes. -/
namespace GlyphRules.Command

namespace Phrase

def width (vars : Variables) : Phrase (Selection × Int × Bool) := do
  let s ← glyphs
  let n ← value vars
  let relative ← option (sign "%")
  pure (s, n, relative.isSome)

def category : Phrase (Selection × String) := do
  let s ← glyphs
  let c ← word (["base", "mark", "ligature", "component"].map fun c => (c, c))
  pure (s, c)

end Phrase

namespace Craft

def setWidth (text : String) : Craft Unit := do
  let (s, n, relative) ← read Phrase.width text
  if !relative then throw .badValue
  for g in ← resolve s do
    modify fun w => { w with font := w.font.alter g fun x => { x with width := (x.width * .int n).div 100 } }
  modify fun w => { w with fontModified := true }

def setCategory (text : String) : Craft Unit := do
  let (s, c) ← read (fun _ => Phrase.category) text
  for g in ← resolve s do
    onBook fun b => { b with glyphClasses := Dict.set b.glyphClasses g (some c) }

def tell (s : Selection) : Craft Unit := do
  let text ← ofExcept s.text
  warn (text ++ " = " ++ Text.join " " (← resolve s))

def showClass (text : String) : Craft Unit := do tell (← read (fun _ => Phrase.glyphs) text)

def listClassNames : Craft Unit := do warn (Text.join " " ((← get).book.namedClasses.map (·.1)))

def listClasses : Craft Unit := do
  for (c, _) in (← get).book.namedClasses do
    tell { selector := .named c, place := .unwritten }

end Craft
end GlyphRules.Command
