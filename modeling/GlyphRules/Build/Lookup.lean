import GlyphRules.Scalar.Store
import GlyphRules.Rule.Basic

/-! Lookups of a font table.

A `Builder` collects the rules of one lookup in the form in which the table holds them.
`Builder.finish` says what lookup comes out: none if it is empty, a fault where a glyph is not in
the font or classes contradict each other. -/
namespace GlyphRules.Build

abbrev BuilderId := Nat

/-- The parts of a value that are set, and where their deltas are stored. -/
structure Value where
  parts : List (String × Number) := []
  devices : List (String × RowIndex) := []

namespace Value

def same (a b : Value) : Bool :=
  a.parts.length == b.parts.length && a.devices == b.devices &&
    (a.parts.zip b.parts).all fun (p, q) => p.1 == q.1 && p.2 == q.2

end Value

structure AnchorPoint where
  x : Int
  y : Int
  xDevice : Option RowIndex := none
  yDevice : Option RowIndex := none
deriving DecidableEq

structure ChainRule where
  before : List Slot
  input : List Slot
  after : List Slot
  calls : List (List BuilderId)

structure ReverseRule where
  before : List Slot
  after : List Slot
  mapping : List (String × String)

inductive Contents where
  | single (mapping : List (String × String))
  | multiple (mapping : List (String × List String))
  | ligature (ligatures : List (List String × String))
  | chain (stage : Stage) (rules : List ChainRule)
  | reverse (rules : List ReverseRule)
  | place (mapping : List (String × Value))
  | pair (classes : List (Slot × Value × Slot × Value)) (pairs : List ((String × String) × Value × Value))
  | cursive (attachments : List (String × Option AnchorPoint × Option AnchorPoint))
  | marks (toMark : Bool) (marks : List (String × Option String × AnchorPoint))
      (bases : List (String × List (Option String × AnchorPoint)))
deriving Inhabited

structure Builder where
  contents : Contents
  flags : Flags := .bits 0
  /-- The place of the lookup in its table, once it has one. -/
  index : Option Nat := none
deriving Inhabited

/-- What becomes of a builder: the type and the flags of the lookup. -/
structure Finished where
  type : Nat
  flags : Flags

def coverage (glyphs : List String) (set : List String) : Except Fault Unit :=
  if set.all glyphs.contains then .ok () else .error .badValue

/-! ### Classes -/

/-- Classes that have no glyph in common. -/
structure Classes where
  classes : List (List String) := []

namespace Classes

/-- A class may be added if it is there already or shares no glyph with those there. -/
def canAdd (c : Classes) (gs : List String) : Bool :=
  c.classes.contains gs || !gs.any fun g => c.classes.any (·.contains g)

def add (c : Classes) (gs : List String) : Except Fault Classes :=
  if c.classes.contains gs then .ok c
  else if (Text.distinct gs).length != gs.length || !c.canAdd gs then .error .conflictingLookup
  else .ok ⟨c.classes ++ [gs]⟩

end Classes

def asSet (s : Slot) : List String := Text.sort (Text.distinct s)

/-- Whether the slots at one side of all rules can be told apart by classes. -/
def haveClasses (slots : List Slot) : Bool :=
  (slots.foldl (fun (c : Option Classes) s =>
    match c with
    | none => none
    | some c => if c.canAdd (asSet s) then (c.add (asSet s)).toOption else none) (some {})).isSome

/-! ### Kinds of lookups -/

/-- A chain of rules must cover glyphs of the font and call lookups that have a place. -/
def checkChainRule (glyphs : List String) (places : BuilderId → Option Nat) (chaining : Bool)
    (r : ChainRule) : Except Fault Unit := do
  if chaining then
    r.before.forM (coverage glyphs)
    r.after.forM (coverage glyphs)
  r.input.forM (coverage glyphs)
  if r.calls.flatten.any fun b => (places b).isNone then throw .conflictingLookup

/-- Chains without classes, or with classes that can be told apart, need a glyph in every slot. -/
def checkChain (glyphs : List String) (places : BuilderId → Option Nat) (chaining : Bool)
    (rules : List ChainRule) : Except Fault Unit := do
  rules.forM (checkChainRule glyphs places chaining)
  let slots (r : ChainRule) : List Slot := r.before ++ r.input ++ r.after
  let byClass := haveClasses (rules.flatMap (·.before)) && haveClasses (rules.flatMap (·.input)) &&
    haveClasses (rules.flatMap (·.after))
  let plain := rules.all fun r => (slots r).all (·.length ≤ 1)
  if byClass || plain then
    if rules.any fun r => r.input.isEmpty || (if chaining then slots r else r.input).any List.isEmpty then
      throw .outOfRange

def checkReverse (glyphs : List String) (r : ReverseRule) : Except Fault Unit := do
  r.before.forM (coverage glyphs)
  r.after.forM (coverage glyphs)
  coverage glyphs (r.mapping.map (·.1))
  if r.mapping.isEmpty then throw .missingPart

/-- Class pairs go to one subtable as long as their classes fit together. The result is
whether any subtable has glyphs. -/
def checkClassPairs (glyphs : List String) (pairs : List (Slot × Slot)) (finishPairs : Except Fault Unit) :
    Except Fault Bool := do
  let flush (first : List Slot) : Except Fault Bool := do
    coverage glyphs first.flatten
    return !first.flatten.isEmpty
  let (first, second, any) ← pairs.foldlM (fun (first, second, any) (a, b) => do
    let fits := match first, second with
      | some (c : Classes), some (d : Classes) => c.canAdd a && d.canAdd b
      | _, _ => false
    if fits then
      return (some (← (first.getD {}).add a), some (← (second.getD {}).add b), any)
    else
      let any' ← match first with
        | none => pure false
        | some c => flush c.classes
      return (some (← ({} : Classes).add a), some (← ({} : Classes).add b), any || any'))
    ((none : Option Classes), (none : Option Classes), false)
  finishPairs
  match first, second with
  | some c, some _ => return any || (← flush c.classes)
  | _, _ => return any

def checkGlyphPairs (glyphs : List String) (pairs : List (String × String)) : Except Fault Unit := do
  coverage glyphs (pairs.map (·.1))
  if pairs.all fun p => glyphs.contains p.2 then return else throw .notFound

def checkMarks (glyphs : List String) (marks : List (String × Option String × AnchorPoint))
    (bases : List (String × List (Option String × AnchorPoint))) (toMark : Bool) : Except Fault Unit := do
  let classes := marks.map (·.2.1)
  if !toMark && bases.any fun (_, as) => as.any fun (c, _) => !classes.contains c then throw .badValue
  coverage glyphs (marks.map (·.1))
  coverage glyphs (bases.map (·.1))

/-- The flags of a lookup; a lookup without a set of marks must not ask for one. -/
def checkFlags (flags : Flags) : Except Fault Unit := do
  if ← flags.test 0x10 then throw .brokenPromise

/-- The type of the lookup that a builder makes, `none` if it holds nothing. -/
def Contents.type (glyphs : List String) (places : BuilderId → Option Nat) : Contents → Except Fault (Option Nat)
  | .single m => .ok (if m.isEmpty then none else some 1)
  | .multiple m => .ok (if m.isEmpty then none else some 2)
  | .ligature l => .ok (if l.isEmpty then none else some 4)
  | .chain stage rules => do
    let context := rules.any fun r => !r.before.isEmpty || !r.after.isEmpty
    let chaining := context || stage == .pos
    if rules.isEmpty then return none
    checkChain glyphs places chaining rules
    return some (if stage == .pos then 8 else if context then 6 else 5)
  | .reverse rules => do
    rules.forM (checkReverse glyphs)
    return if rules.isEmpty then none else some 8
  | .place m => do
    coverage glyphs (m.map (·.1))
    return if m.isEmpty then none else some 1
  | .pair classes pairs => do
    let any ← checkClassPairs glyphs (classes.map fun (a, _, b, _) => (a, b))
      (if pairs.isEmpty then .ok () else checkGlyphPairs glyphs (pairs.map (·.1)))
    return if any || !pairs.isEmpty then some 2 else none
  | .cursive a => do
    coverage glyphs (a.map (·.1))
    return if a.isEmpty then none else some 3
  | .marks toMark ms bs => do
    if !toMark && ms.isEmpty && bs.isEmpty then return none
    checkMarks glyphs ms bs toMark
    return some (if toMark then 6 else 4)

def Builder.finish (glyphs : List String) (places : BuilderId → Option Nat) (b : Builder) :
    Except Fault (Option Finished) := do
  match ← b.contents.type glyphs places with
  | none => return none
  | some type =>
    checkFlags b.flags
    return some ⟨type, b.flags⟩

/-! ### Renumbering -/

def Value.renumber (f : RowIndex → RowIndex) (v : Value) : Value :=
  { v with devices := v.devices.map fun (k, i) => (k, f i) }

def AnchorPoint.renumber (f : RowIndex → RowIndex) (a : AnchorPoint) : AnchorPoint :=
  { a with xDevice := a.xDevice.map f, yDevice := a.yDevice.map f }

def Contents.renumber (f : RowIndex → RowIndex) : Contents → Contents
  | .place m => .place (m.map fun (g, v) => (g, v.renumber f))
  | .pair classes pairs =>
    .pair (classes.map fun (a, v, b, w) => (a, v.renumber f, b, w.renumber f))
      (pairs.map fun (p, v, w) => (p, v.renumber f, w.renumber f))
  | .cursive as => .cursive (as.map fun (g, a, b) => (g, a.map (·.renumber f), b.map (·.renumber f)))
  | .marks t ms bs =>
    .marks t (ms.map fun (g, c, a) => (g, c, a.renumber f))
      (bs.map fun (g, as) => (g, as.map fun (c, a) => (c, a.renumber f)))
  | c => c

end GlyphRules.Build
