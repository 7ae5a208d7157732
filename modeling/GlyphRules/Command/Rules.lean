import GlyphRules.Command.Workshop

/-! Commands that write rules: substitutions, positionings, chains, deletions and swaps.

Selections are resolved in the order in which each command needs them; notes
about missing glyphs come in that order. -/
namespace GlyphRules.Command

/-- What replaces a glyph: a selection, or what stood at a position on the left, with other
suffixes. -/
inductive Output where
  | selection (s : Selection)
  | back (position : Nat) (suffixes : List Suffix)

/-- Which selection of the left side a backreference means: they count from one, and zero means
the last. -/
def backTarget (size position : Nat) : Option Nat :=
  if position == 0 then (if size == 0 then none else some (size - 1))
  else if position ≤ size then some (position - 1)
  else none

def lastSuffixes (size target : Nat) (right : List Output) : Option (List Suffix) :=
  (right.reverse.findSome? fun
    | .back p suffixes => if backTarget size p == some target then some suffixes else none
    | .selection _ => none)

def outputs (left : List Selection) (right : List Output) : Except Fault (List Selection) :=
  right.mapM fun
    | .selection s => .ok s
    | .back p _ =>
      match backTarget left.length p with
      | none => .error .outOfRange
      | some i =>
        match left[i]? with
        | none => .error .outOfRange
        | some s => .ok { s with suffixes := (lastSuffixes left.length i right).getD s.suffixes }

namespace Phrase

/-! ### Substitutions -/

structure SubstitutionForm where
  left : List Selection
  right : List Output
  languages : List LanguageSystem := []
  before : List Selection := []
  after : List Selection := []

def backReference : Phrase Output := do
  sign "$"
  let digits ← several (part fun
    | c :: _ => if c.isDigit then some 1 else none
    | [] => none)
  let suffixes ← many suffix
  match digits with
  | [[d]] => pure (.back (d.toNat - 48) suffixes)
  | _ => do trouble .badValue; pure (.back 0 suffixes)

def output : Phrase Output := either (.selection <$> glyphs) backReference

def plainSubstitution : Phrase SubstitutionForm := do
  let left ← several glyphs
  sign "->"
  let right ← several output
  let languages ← option languages
  pure { left, right, languages := languages.getD [] }

def contextualSubstitution : Phrase SubstitutionForm := do
  let before ← many glyphs
  sign "("
  let left ← several glyphs
  sign ")"
  let after ← many glyphs
  sign "->"
  let right ← several output
  let languages ← option languages
  pure { left, right, languages := languages.getD [], before, after }

/-! ### Positionings -/

/-- How a glyph is moved, as written. -/
inductive ValueForm where
  | bare (n : Int)
  | record (v : ValueRecord)
deriving Inhabited

/-- A part of a value record. -/
inductive Dimension where
  | xAdvance | xPlacement | yAdvance | yPlacement
deriving DecidableEq

def dimension : Phrase Dimension :=
  word [("xAdvance", .xAdvance), ("xPlacement", .xPlacement), ("yAdvance", .yAdvance), ("yPlacement", .yPlacement)]

def setPart (v : ValueRecord) (d : Dimension) (n : Int) : ValueRecord :=
  let n : Option Scalar := some (.fixed (.int n))
  match d with
  | .xAdvance => { v with xAdvance := n }
  | .xPlacement => { v with xPlacement := n }
  | .yAdvance => { v with yAdvance := n }
  | .yPlacement => { v with yPlacement := n }

def valueRecord (vars : Variables) : Phrase ValueForm :=
  anyOf [
    do settle (ValueForm.bare <$> (← number)) default,
    do
      sign "<"
      let parts ← several do
        let d ← dimension
        sign "="
        let n ← value vars
        pure (d, n)
      sign ">"
      pure (.record (parts.foldl (fun v (d, n) => setPart v d n) {})),
    do
      sign "<"
      let a ← value vars
      let b ← value vars
      let c ← value vars
      let d ← value vars
      sign ">"
      pure (.record ([(Dimension.xPlacement, a), (.yPlacement, b), (.xAdvance, c), (.yAdvance, d)].foldl
        (fun v (d, n) => setPart v d n) {}))]

abbrev Placed := Selection × Option ValueForm

/-- Readings of a row of placed glyphs that end at one place: how long the text still is, the row,
and what the last glyph is worth. -/
structure Row where
  rest : Rest
  items : List Placed := []
  /-- Whether the last glyph has a value, and how much text was left before it and before its value. -/
  worth : Nat × Nat × Nat := (0, 0, 0)

/-- A row is better if its last glyph has a value, else if that glyph starts later, else if its
value starts later. -/
def Row.better (a b : Row) : Bool :=
  let (va, sa, ea) := a.worth
  let (vb, sb, eb) := b.worth
  if va != vb then va > vb else if sa != sb then sa < sb else ea < eb

def Row.insert (a : Row) : List Row → List Row
  | [] => [a]
  | b :: bs =>
    if a.rest.chars.length == b.rest.chars.length then (if a.better b then a :: bs else b :: bs)
    else if a.rest.chars.length > b.rest.chars.length then a :: b :: bs
    else b :: Row.insert a bs

def Row.extend (vars : Variables) (row : Row) : List Row :=
  let start := (skipBlanks row.rest).chars.length
  (glyphs row.rest).flatMap fun (s, rest) =>
    { rest, items := row.items ++ [(s, none)], worth := (0, start, 0) } ::
      (valueRecord vars rest).map fun (v, rest') =>
        { rest := rest', items := row.items ++ [(s, some v)], worth := (1, start, (skipBlanks rest).chars.length) }

/-- The best row for every place where one can end; `open` rows come with the longest rest first. -/
def rowsFrom (vars : Variables) : Nat → List Row → List Row
  | 0, _ => []
  | _, [] => []
  | fuel + 1, row :: more =>
    row :: rowsFrom vars fuel ((row.extend vars).foldl (fun rows r => r.insert rows) more)

/-- Glyphs with and without values. A number may also be the name of a glyph: reading from the
end, it is a value wherever it can be. -/
def placedGlyphs (vars : Variables) : Phrase (List Placed) := fun r =>
  ((rowsFrom vars (r.chars.length + 2) [{ rest := r }]).filter (!·.items.isEmpty)).reverse.map fun row =>
    (row.items, row.rest)

/-- A positioning as written; without parentheses it has no meaning. -/
structure PositioningForm where
  items : List Placed
  context : Option (List Selection × List Selection)

def positioning (vars : Variables) : Phrase PositioningForm :=
  let row : Phrase (List Placed) := do
    let l ← placedGlyphs vars
    let _ ← option languages
    pure l
  either (do pure { items := ← row, context := none }) do
    let before ← many glyphs
    sign "("
    let items ← row
    sign ")"
    let after ← many glyphs
    let _ ← option languages
    pure { items, context := some (before, after) }

/-! ### Chains -/

/-- A chain as written; without parentheses it has no meaning. -/
structure ChainForm where
  items : List (Selection × List String)
  languages : Option (List LanguageSystem)
  context : Option (List Selection × List Selection)

def chain : Phrase ChainForm :=
  let call : Phrase String := do
    sign "^"
    let n ← name
    let _ ← option (sign ",")
    pure n
  let row : Phrase (List (Selection × List String) × Option (List LanguageSystem)) := do
    let items ← several do
      let s ← glyphs
      let calls ← many call
      pure (s, calls)
    let languages ← option languages
    pure (items, languages)
  either
    (do
      let (items, languages) ← row
      pure { items, languages, context := none })
    do
      let before ← many glyphs
      sign "("
      let (items, languages) ← row
      sign ")"
      let after ← many glyphs
      pure { items, languages, context := some (before, after) }

/-- Two neighbours, perhaps in a context. -/
structure SwapForm where
  left : Selection
  right : Selection
  before : List Selection := []
  after : List Selection := []

def swap : Phrase SwapForm :=
  either
    (do
      let left ← glyphs
      let right ← glyphs
      pure { left, right })
    do
      let before ← many glyphs
      sign "("
      let left ← glyphs
      let right ← glyphs
      sign ")"
      let after ← many glyphs
      pure { left, right, before, after }

end Phrase

namespace Craft
open Phrase

/-- The rule of a substitution: the left side is resolved first, then the context, then what it
becomes. -/
def substitution (f : SubstitutionForm) (reversal : Reversal) : Craft Rule := do
  let input ← resolveAll f.left
  let before ← resolveAll f.before
  let after ← resolveAll f.after
  let replacement ← resolveAll (← ofExcept (outputs f.left f.right))
  return { body := .substitution { input := some input, replacement := some replacement, before, after, reversal },
           languages := some (.pairs f.languages) }

def substitute (text : String) : Craft (List Product) := do
  let form ← read (fun _ => either plainSubstitution contextualSubstitution) text
  return [.rule (← addRule (← substitution form .forward))]

def reverseSubstitute (text : String) : Craft (List Product) := do
  let form ← read (fun _ => plainSubstitution) text
  return [.rule (← addRule (← substitution form .backward))]

/-- What a written value comes to. A bare number can only be zero, which is no value. -/
def valueOf : Option ValueForm → Except Fault (Option ValueRecord)
  | none => .ok none
  | some (.record v) => .ok (some v)
  | some (.bare n) => if n == 0 then .ok none else .error .wrongKind

def position (text : String) : Craft (List Product) := do
  let form ← read positioning text
  match form.context with
  | none => throw .wrongKind
  | some (before, after) =>
    let before ← resolveAll before
    let after ← resolveAll after
    let placed ← form.items.mapM fun (s, v) => do
      let glyphs ← resolve s
      return (glyphs, ← ofExcept (valueOf v))
    let rule := Rule.ofBody
      (.positioning { glyphs := placed.map (·.1), values := placed.map (·.2), before, after })
    return [.rule (← addRule rule)]

def chain (text : String) : Craft (List Product) := do
  let form ← read (fun _ => Phrase.chain) text
  match form.context with
  | none => throw .badValue
  | some (before, after) =>
    let input ← resolveAll (form.items.map (·.1))
    let before ← resolveAll before
    let after ← resolveAll after
    let book := (← get).book
    let calls := form.items.map fun (_, names) =>
      some (names.map fun n => Lookup.ref (Reference.make book (some n) none))
    let rule : Rule :=
      { body := .chaining { input := some input, before, after, calls }, languages := form.languages.map .pairs }
    return [.rule (← addRule rule)]

def deletion (slot : Slot) : Rule := .ofBody (.substitution { input := some [slot], replacement := some [] })

def delete (text : String) : Craft (List Product) := do
  let s ← read (fun _ => glyphs) text
  return [.rule (← addRule (deletion (← resolve s)))]

def exchange (old new : Slot) : Rule :=
  .ofBody (.substitution { input := some [old], replacement := some [new] })

def swap (text : String) : Craft (List Product) := do
  let form ← read (fun _ => Phrase.swap) text
  let left ← resolve form.left
  let right ← resolve form.right
  let before ← resolveAll form.before
  let after ← resolveAll form.after
  let toRight ← routineOf [exchange left right]
  let toLeft ← routineOf [exchange right left]
  let rule := Rule.ofBody (.chaining
    { input := some [left, right], before, after, calls := [some [.bare toRight], some [.bare toLeft]] })
  return [.rule (← addRule rule)]

end Craft
end GlyphRules.Command
