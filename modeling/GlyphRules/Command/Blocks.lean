import GlyphRules.Command.Workshop

/-! Commands with a block: features, routines and conditions.

The commands of a block have run before; their products come in order, and several blocks may share
them. -/
namespace GlyphRules.Command

/-- A lookup flag, perhaps with the glyphs it is about. -/
inductive FlagForm where
  | plain (bits : Nat)
  | attachmentType (glyphs : Selection)
  | filteringSet (glyphs : Selection)

namespace Phrase

def flag : Phrase FlagForm :=
  either
    (.plain <$> word [("RightToLeft", 1), ("IgnoreBases", 2), ("IgnoreLigatures", 4), ("IgnoreMarks", 8)])
    (either (do sign "MarkAttachmentType"; .attachmentType <$> glyphs)
      (do sign "UseMarkFilteringSet"; .filteringSet <$> glyphs))

def flags : Phrase (List FlagForm × List LanguageSystem) := do
  let l ← many flag
  let systems ← option languages
  pure (l, systems.getD [])

def comparison (vars : Variables) : Phrase Unit := do
  let _ ← option (sign "not")
  let _ ← value vars
  let _ ← relation
  let _ ← value vars

def condition (vars : Variables) : Phrase Unit := do
  comparison vars
  let _ ← option do
    either (sign "&") (sign "|")
    comparison vars

end Phrase

namespace Craft

def rulesOf (products : List Product) : Craft (List RuleId) := do
  let book := (← get).book
  return products.flatMap fun
    | .rule id => [id]
    | .routine id => book.ruleIds id

def addLoose (tag : String) (rules : List RuleId) : Craft Unit := do
  if rules.isEmpty then return
  let id ← addRoutine { content := .rules rules }
  onBook (·.addFeature tag [.bare id])

/-- Add products to a feature: a routine as it is, and each run of rules between routines in a
routine of its own. -/
def addToFeature (tag : String) : List RuleId → List Product → Craft Unit
  | loose, [] => addLoose tag loose
  | loose, .rule id :: more => addToFeature tag (loose ++ [id]) more
  | loose, .routine id :: more => do
    addLoose tag loose
    onBook (·.addFeature tag [.bare id])
    addToFeature tag [] more

def feature (before : String) (products : List Product) : Craft (List Product) := do
  let tag ← read (fun _ => Phrase.tag) before
  addToFeature tag [] products
  return products

def setFlags (id : RoutineId) : List FlagForm → Craft Unit
  | [] => return
  | f :: more => do
    let raise (bits : Nat) (r : Routine) : Routine :=
      { r with flags := match r.flags with
        | .bits n => .bits (Flags.lorBits n bits)
        | other => other }
    match f with
    | .plain bits => onBook (·.alterRoutine id (raise bits))
    | .attachmentType s =>
      let glyphs ← resolve s
      onBook (·.alterRoutine id fun r => { raise 0xFF00 r with markAttachmentSet := some glyphs })
    | .filteringSet s =>
      let glyphs ← resolve s
      onBook (·.alterRoutine id fun r => { raise 0x10 r with markFilteringSet := some glyphs })
    setFlags id more

def routine (before after : String) (products : List Product) : Craft (List Product) := do
  let name ← read (fun _ => Phrase.option Phrase.label) before
  let (flags, systems) ← read (fun _ => Phrase.flags) after
  let id ← addRoutine
    { name := some (name.getD ""), content := .rules (← rulesOf products), languages := .pairs systems }
  setFlags id flags
  onBook fun b => { b with order := b.order ++ [id] }
  return [.routine id]

/-- A condition has to have a value; whether it is true makes no difference, for the block has
been run already and counts in any case. -/
def condition (before : String) (products : List Product) : Craft (List Product) := do
  read Phrase.condition before
  return products

end Craft
end GlyphRules.Command
