import GlyphRules.Shaping.Session
import GlyphRules.Feature.RuleText

/-! Rules at work on a buffer.

A routine goes through the buffer from left to right. At each place the first of its rules that fits
is applied, and may say how many places to pass over. Every test also writes the rule down, so a
rule without a written form cannot be tried. -/
namespace GlyphRules.Shaping

abbrev Classes := List (String × List String)

/-- The glyphs that a name stands for. A class that is not known is empty. -/
def expandName (classes : Classes) (g : String) : List String :=
  match g.toList with
  | '@' :: name => (Dict.get? classes (String.ofList name)).getD []
  | _ => [g]

def expandSlot (classes : Classes) (slot : Slot) : Slot := slot.flatMap (expandName classes)

def fits (classes : Classes) (slot : Slot) (i : Item) : Bool :=
  match i.glyph with
  | some g => (expandSlot classes slot).contains g
  | none => false

def matchSlots (classes : Classes) (items : List Item) (slots : List Slot) : Bool :=
  items.length == slots.length && (items.zip slots).all fun (i, s) => fits classes s i

def named (items : List Item) : Except Fault String :=
  match items.mapM (·.glyph) with
  | some glyphs => .ok (Text.join "|" glyphs)
  | none => .error .wrongKind

def shownSlots (slots : List Slot) : String := Text.bracketed (slots.map Text.quotedList)

/-! ### Testing -/

/-- Whether a rule fits at a place, and what there is to say about it. -/
structure Verdict where
  fits : Bool
  remarks : List String := []

def Verdict.no (remark : String) : Verdict := ⟨false, [remark]⟩

def Shape.write (r : Rule) : Shape String := do
  (Feature.ruleWarning? r).toList.forM Shape.warn
  ofExcept (Feature.ruleText (← get).book r)

def inputOf (r : Rule) : Except Fault (List Slot) :=
  match r.input with
  | some i => .ok i
  | none => .error .wrongKind

def sideMatches (classes : Classes) (side : String) (found : List Item) (wanted : List Slot) :
    Except Fault Verdict := do
  if matchSlots classes found wanted then return ⟨true, []⟩
  else return .no (" - No, " ++ side ++ " doesn't match " ++ (← named found) ++ " != " ++ shownSlots wanted)

def beforeMatches (b : Buffer) (classes : Classes) (before : List Slot) (at_ : Int) : Except Fault Verdict := do
  if before.isEmpty then return ⟨true, []⟩
  else if at_ < before.length then return .no " - No, not enough precontext"
  else sideMatches classes "precontext" (← b.slice (at_ - before.length) at_) before

def afterMatches (b : Buffer) (classes : Classes) (after : List Slot) (stop : Int) : Except Fault Verdict := do
  if after.isEmpty then return ⟨true, []⟩
  else if (b.view.size : Int) < stop + after.length then return .no " - No, not enough postcontext"
  else sideMatches classes "postcontext" (← b.slice stop (stop + after.length)) after

/-- Whether what stands before and after the place is as the rule wants it. -/
def contextMatches (b : Buffer) (classes : Classes) (r : Rule) (at_ : Int) : Except Fault Verdict := do
  let before ← beforeMatches b classes r.before at_
  if !before.fits then return before
  else if r.after.isEmpty then return ⟨true, []⟩
  else afterMatches b classes r.after (at_ + (← inputOf r).length)

def slotsMatch (b : Buffer) (classes : Classes) (r : Rule) (at_ : Int) : Except Fault Verdict := do
  let input ← inputOf r
  if input.isEmpty then return ⟨false, []⟩
  else
    let found ← b.slice at_ (at_ + input.length)
    if !matchSlots classes found input then
      return .no (" - No! " ++ (← named found) ++ " != " ++ shownSlots input)
    else
      let context ← contextMatches b classes r at_
      if !context.fits then return context
      else return ⟨true, [" - Yes! " ++ (← named found) ++ " == " ++ shownSlots input]⟩

/-- Whether nothing between a base and its mark is like the base or unknown. -/
def clearBetween (b : Buffer) (category : String) : List Int → Except Fault Bool
  | [] => .ok true
  | i :: rest => do
    let c ← (← b.get i).category
    if c == category || c == "unknown" then return false
    clearBetween b category rest

/-- The nearest base before a place, unless something stands in the way. `n` is the
number of places before it. -/
def baseBefore (b : Buffer) (a : Attachment) (start : Int) : Nat → Except Fault (Option Nat)
  | 0 => .ok none
  | n + 1 => do
    let item ← b.get n
    match item.glyph with
    | some g =>
      if a.bases.any (·.1 == g) then
        let category ← item.category
        let between := (List.range (start - (n + 1)).toNat).map fun (k : Nat) => (n + 1 + k : Int)
        return if ← clearBetween b category between then some n else none
      else baseBefore b a start n
    | none => baseBefore b a start n

def findBase (b : Buffer) (a : Attachment) (at_ : Int) : Except Fault (Option Nat) :=
  baseBefore b a at_ at_.toNat

/-- Whether an attachment fits at a place. Cursive joining is tried at every place but the first. -/
def attachmentMatches (b : Buffer) (classes : Classes) (a : Attachment) (at_ : Int) : Except Fault Verdict := do
  let shown (i : Item) : String := i.glyph.getD "None"
  let marks := a.marks.map (·.1)
  let bases := a.bases.map (·.1)
  if a.isCursive then
    if at_ == 0 then return .no " * No, it has no adjacent glyph"
    let mark ← b.get at_
    let base ← b.get (at_ - 1)
    let pair := shown mark ++ "/" ++ shown base
    let known := fits classes marks mark && fits classes bases base
    return ⟨true, (if known then [" * No, " ++ pair ++ " is not a pair"] else []) ++ [" * Yes, " ++ pair ++ " is a pair"]⟩
  let mark ← b.get at_
  if !fits classes marks mark then return .no (" * No, " ++ shown mark ++ " is not in our mark list")
  match ← findBase b a at_ with
  | none => return .no " * No, I couldn't find a base glyph"
  | some place =>
    let base ← b.get place
    if !fits classes bases base then return .no (" * No, " ++ shown base ++ " is not in our base list")
    return ⟨true, [" * Yes, attaching mark " ++ shown mark ++ "/" ++ toString at_ ++ " to " ++ shown base ++ "/" ++
      toString place]⟩

def ruleMatches (b : Buffer) (classes : Classes) (r : Rule) (at_ : Int) : Except Fault Verdict :=
  match r.body with
  | .attachment a => attachmentMatches b classes a at_
  | _ => slotsMatch b classes r at_

def Shape.wouldApply (classes : Classes) (r : Rule) (at_ : Int) : Shape Bool := do
  let text ← write r
  sayDetail ("Testing if " ++ text ++ " would apply at position " ++ toString at_)
  let verdict ← ask fun b => ruleMatches b classes r at_
  verdict.remarks.forM sayDetail
  return verdict.fits

/-! ### Values -/

def addPart (a b : Option Scalar) : Except Fault (Option Scalar) :=
  if setAndCounts a || setAndCounts b then do return some (← addScalars (orZero a) (orZero b))
  else .ok a

/-- Add one value to another, part by part up to the first that cannot be added. -/
def addValue (a b : ValueRecord) : ValueRecord × Option Fault :=
  match addPart a.xPlacement b.xPlacement with
  | .error f => (a, some f)
  | .ok x =>
    let a := { a with xPlacement := x }
    match addPart a.yPlacement b.yPlacement with
    | .error f => (a, some f)
    | .ok y =>
      let a := { a with yPlacement := y }
      match addPart a.xAdvance b.xAdvance with
      | .error f => (a, some f)
      | .ok x =>
        let a := { a with xAdvance := x }
        match addPart a.yAdvance b.yAdvance with
        | .error f => (a, some f)
        | .ok y => ({ a with yAdvance := y }, none)

def Shape.addPosition (index : Nat) (v : Option ValueRecord) : Shape Unit := do
  let item ← ask fun b => itemAt b.items index
  let position ← ofExcept item.position
  match v with
  | none => throw .missingPart
  | some v =>
    let (p, fault) := addValue position v
    onBuffer fun b => b.alter index fun i => i.setPosition p
    match fault with
    | some f => throw f
    | none => return

def subScalars : Scalar → Scalar → Except Fault Scalar
  | .fixed a, .fixed b => .ok (.fixed (a - b))
  | _, _ => .error .wrongKind

def negScalar : Scalar → Except Fault Scalar
  | .fixed a => .ok (.fixed (-a))
  | _ => .error .wrongKind

/-! ### Applying -/

namespace Shape

def position (at_ : Int) (f : ValueRecord → Except Fault ValueRecord) : Shape Unit := do
  let index ← ask fun b => b.indexOf at_
  let item ← ask fun b => itemAt b.items index
  let p ← ofExcept (do f (← item.position))
  onBuffer fun b => b.alter index fun i => i.setPosition p

def glyphAt (at_ : Int) : Shape (Option String) := do return (← ask fun b => b.get at_).glyph

def choice (input output : Slot) (at_ : Int) : Shape String := do
  match output with
  | [g] => return g
  | _ =>
    match (← glyphAt at_).bind fun g => input.idxOf? g with
    | none => throw .badValue
    | some i =>
      (output[i]?).elim (throw .outOfRange) pure

def replaceOne (classes : Classes) (input output : Slot) (at_ : Int) : Shape Unit := do
  let new ← choice (expandSlot classes input) (expandSlot classes output) at_
  let index ← ask fun b => b.indexOf at_
  prepareAt index fun i => { i with glyph := some new }

def likeItem (at_ : Int) (slot : Slot) (multiplied ligated : Bool) : Shape Item := do
  let item ← ask fun b => b.get at_
  match slot with
  | [] => throw .outOfRange
  | g :: _ =>
    let i ← preparedInFont { item with glyph := some g }
    return { i with state := i.state.map fun s => { s with substituted := true, multiplied, ligated } }

def substitute (classes : Classes) (s : Substitution) (at_ : Int) : Shape (Option Int) := do
  match s.input, s.replacement with
  | some input, some output =>
    match input, output with
    | [i], [o] =>
      replaceOne classes i o at_
      return none
    | _, _ =>
      let found ← ask fun b => b.slice at_ (at_ + input.length)
      let new ← output.mapM fun slot =>
        likeItem at_ slot (output.length > 1 && found.length == 1) (output.length == 1 && found.length > 1)
      let b ← ask fun b => b.setSlice at_ (at_ + input.length) new
      onBuffer fun _ => b
      return if output.length > 1 then some (output.length - 1) else none
  | _, _ => throw .wrongKind

/-- Move the glyphs. The places are passed over unless the last value is empty. -/
def place (p : Positioning) (at_ : Int) : Shape (Option Int) := do
  let places := range (← buffer).view.places at_ (at_ + p.glyphs.length)
  let count ← ask fun b => do return (← b.slice at_ (at_ + p.glyphs.length)).length
  for (index, v) in (places.take count).zip p.values do
    addPosition index v
  match p.values.getLast? with
  | none => throw .outOfRange
  | some last => return if ((last.map ValueRecord.isSet).getD false) then some (p.glyphs.length - 1) else none

/-- Note that the item at a place hangs on another, so many places away. -/
def hang (at_ : Int) (kind : AttachKind) (distance : Int) : Shape Unit := do
  let index ← ask fun b => b.indexOf at_
  onBuffer fun b => b.alter index fun i =>
    { i with attachKind := some kind, attachChain := some (some distance) }

def joinCursive (a : Attachment) (flags : Flags) (at_ : Int) : Shape Unit := do
  let mark ← glyphAt at_
  let base ← glyphAt (at_ - 1)
  match mark.bind fun m => Dict.get? a.marks m, base.bind fun m => Dict.get? a.bases m with
  | some (exitX, exitY), some (entryX, entryY) =>
    let before ← ofExcept (← ask fun b => b.get (at_ - 1)).position
    let d ← ofExcept (addScalars exitX (orZero before.xPlacement))
    position (at_ - 1) fun p => do return { p with xAdvance := some (← subScalars (orZero p.xAdvance) d) }
    position (at_ - 1) fun p => do return { p with xPlacement := some (← subScalars (orZero p.xPlacement) d) }
    position at_ fun p => do return { p with xAdvance := some (← addScalars entryX (orZero p.xPlacement)) }
    let x ← ofExcept (subScalars entryX exitX)
    let _ ← ofExcept (subScalars entryY exitY)
    let fromRight ← ofExcept (flags.test 1)
    let (parent, child) := if fromRight then (at_, at_ - 1) else (at_ - 1, at_)
    let x ← ofExcept (if fromRight then .ok x else negScalar x)
    position child fun p => return { p with xPlacement := some x }
    hang at_ .cursive (parent - child)
  | _, _ => return

def hangMark (a : Attachment) (at_ : Int) : Shape Unit := do
  let found ← ask fun b => findBase b a at_
  let mark ← glyphAt at_
  match found with
  | none => throw .wrongKind
  | some base =>
    let baseGlyph ← glyphAt base
    match baseGlyph.bind fun g => Dict.get? a.bases g, mark.bind fun m => Dict.get? a.marks m with
    | some (baseX, baseY), some (markX, markY) =>
      let x ← ofExcept (subScalars baseX markX)
      let y ← ofExcept (subScalars baseY markY)
      position at_ fun p => return { p with xPlacement := some x, yPlacement := some y }
      hang at_ .mark (base - at_)
    | _, _ => throw .notFound

def attach (a : Attachment) (flags : Flags) (at_ : Int) : Shape (Option Int) := do
  if a.isCursive then joinCursive a flags at_ else hangMark a at_
  return none

def placeOf (b : Buffer) (index : Nat) : Except Fault Int :=
  go b.view.places b.items.length 0
where
  go : List Nat → Nat → Nat → Except Fault Int
    | _, 0, _ => .ok (-1)
    | [], _ + 1, _ => .error .outOfRange
    | p :: ps, n + 1, i => if p == index then .ok i else go ps n (i + 1)

/-- Try the rules of a called routine where an item now stands, until one moves on. -/
def tryRules (apply : Rule → Int → Shape (Option Int)) (classes : Classes) (filter : Option (List String))
    (index : Nat) : List Rule → Shape Unit
  | [] => return
  | r :: rest => do
    setMask r.flags filter none
    let at_ ← ask fun b => placeOf b index
    if ← wouldApply classes r at_ then
      match ← apply r at_ with
      | none | some 0 => tryRules apply classes filter index rest
      | some _ => return
    else tryRules apply classes filter index rest

def callAll (apply : Rule → Int → Shape (Option Int)) (classes : Classes) (index : Nat) :
    List Lookup → Shape Unit
  | [] => return
  | .bare _ :: _ => throw .brokenPromise
  | .ref { routine := none, .. } :: _ => throw .missingPart
  | .ref { routine := some i, .. } :: rest => do
    let book := (← get).book
    tryRules apply classes (book.routine i).markFilteringSet index (book.rulesOf i)
    callAll apply classes index rest

def filterOf : MarkSet → Option (List String)
  | .glyphs l => some l
  | _ => none

def chain (apply : Rule → Int → Shape (Option Int)) (classes : Classes) (c : Chaining) (at_ : Int) :
    Shape (Option Int) := do
  let b ← buffer
  if (b.view.size : Int) < at_ + c.calls.length - 1 then return none
  let indices ← ofExcept ((List.range c.calls.length).mapM fun (i : Nat) => b.indexOf (at_ + i))
  (c.calls.zip indices).forM fun (calls, index) => callAll apply classes index (calls.getD [])
  setMask b.flags (filterOf b.filter) none
  match c.input with
  | some input => return some (input.length - 1 : Int)
  | none => throw .wrongKind

/-- Apply a rule at a place. The depth bounds how far chains may call chains. What a
chain calls is applied without the named classes. -/
def apply : Nat → Classes → Rule → Int → Shape (Option Int)
  | 0, _, _, _ => throw .endless
  | depth + 1, classes, r, at_ =>
    match r.body with
    | .substitution s => substitute classes s at_
    | .positioning p => place p at_
    | .attachment a => attach a r.flags at_
    | .chaining c => chain (apply depth []) classes c at_

def chainDepth : Nat := 900

/-- Whether a rule belongs to another stage than the one that is run. -/
def skips (stage : Option Stage) (r : Rule) : Shape Bool := do
  match stage with
  | none => return false
  | some s => return (← ofExcept ((← get).book.ruleStage r)) != some s

/-- Apply a rule that fits at a place. Its answer is how many more places to pass over. -/
def applyAt (classes : Classes) (id : RoutineId) (rule : RuleId) (r : Rule) (at_ : Nat) : Shape Int := do
  sayDetail ("Applying rule " ++ (← write r) ++ " at position " ++ toString at_ ++ "\n")
  let moved ← apply chainDepth classes r at_
  modify fun s => { s with applied := (id, rule) :: s.applied }
  update
  return moved.getD 0

/-- The first rule that fits at a place is applied. -/
def tryAt (classes : Classes) (stage : Option Stage) (id : RoutineId) (routine : Routine) (at_ : Nat) :
    List RuleId → Shape Int
  | [] => return 0
  | rule :: rest => do
    let r := (← get).book.rule rule
    if ← skips stage r then tryAt classes stage id routine at_ rest
    else
      setMask r.flags routine.markFilteringSet routine.markAttachmentSet
      if ← wouldApply classes r at_ then applyAt classes id rule r at_
      else tryAt classes stage id routine at_ rest

/-- Try the rules of a routine at a place that can be seen. The next place is the one
behind what was passed over. -/
def pass (classes : Classes) (stage : Option Stage) (id : RoutineId) (routine : Routine) (rules : List RuleId)
    (at_ : Nat) : Shape (Option Nat) := do
  if at_ < (← buffer).view.size then
    let moved ← tryAt classes stage id routine at_ rules
    return some ((at_ : Int) + moved + 1).toNat
  else return none

def enter (routine : Routine) (feature : Option String) : Shape Unit := do
  setMask routine.flags routine.markFilteringSet routine.markAttachmentSet
  match feature with
  | none | some "" => pure ()
  | some f => setFeature f

/-- Run the rules of a routine over the buffer, for one stage or for all, under the masks of a feature. -/
def applyRoutine (classes : Classes) (stage : Option Stage) (feature : Option String) (id : RoutineId) :
    Shape Unit := do
  let book := (← get).book
  let routine := book.routine id
  enter routine feature
  Step.repeated (pass classes stage id routine (book.ruleIds id))

/-- Run a routine, or the routines of an extension, without named classes. -/
def applyExtension (stage : Option Stage) (feature : Option String) : Nat → RoutineId → Shape Unit
  | 0, _ => throw .endless
  | depth + 1, id => do
    match ((← get).book.routine id).content with
    | .extension rs => rs.forM (applyExtension stage feature depth)
    | .rules _ => applyRoutine [] stage feature id
    | .missing => throw .missingPart

end Shape
end GlyphRules.Shaping
