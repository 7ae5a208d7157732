import GlyphRules.Book.Scripts
import GlyphRules.Build.Lookup

/-! From routines to lookups.

A routine becomes one builder. A substitution or positioning in context also
makes a builder for every position that it changes. -/
namespace GlyphRules.Build

/-- The state of a build: the book, the builders made so far, the builder of each routine,
and the variation store if the font has axes. -/
structure Workshop where
  book : Book
  builders : Array Builder := #[]
  ofRoutine : List (RoutineId × BuilderId) := []
  store : Option Store := none

/-- A step of a build, keeping what it changed when it fails. -/
abbrev Work := Step Workshop

namespace Work

def onBook {α : Type} (act : Act α) : Work α := do
  let w ← get
  let (r, book) := act.on w.book
  set { w with book }
  ofExcept r

def addBuilder (b : Builder) : Work BuilderId := do
  let w ← get
  set { w with builders := w.builders.push b }
  return w.builders.size

def builderOf (i : RoutineId) : Work BuilderId := do
  match (← get).ofRoutine.find? (·.1 == i) with
  | some (_, b) => return b
  | none => throw .missingPart

end Work

def storeScalar (v : VariableScalar) : Work (Int × RowIndex) := do
  match (← get).store with
  | none => throw .missingPart
  | some s =>
    let (value, index, s) ← ofExcept (s.add v)
    modify fun w => { w with store := some s }
    return (← ofExcept value, index)

def makeValue (v : Option ValueRecord) : Work Value := do
  match v with
  | none => throw .missingPart
  | some v =>
    let parts := [("XPlacement", "XPlaDevice", v.xPlacement), ("YPlacement", "YPlaDevice", v.yPlacement),
      ("XAdvance", "XAdvDevice", v.xAdvance), ("YAdvance", "YAdvDevice", v.yAdvance)]
    parts.foldlM (fun (acc : Value) (name, device, s) => do
      match s with
      | some (.fixed n) => return if n.isZero then acc else { acc with parts := acc.parts ++ [(name, n)] }
      | some (.varying s) =>
        let (n, index) ← storeScalar s
        return ⟨acc.parts ++ [(name, .int n)], acc.devices ++ [(device, index)]⟩
      | none => return acc) {}

def makeCoordinate (s : Scalar) : Work (Int × Option RowIndex) := do
  match s with
  | .fixed n => return (n.truncate, none)
  | .varying v =>
    let (n, index) ← storeScalar v
    return (n, some index)

def makeAnchor (p : Point) : Work AnchorPoint := do
  let (x, xDevice) ← makeCoordinate p.1
  let (y, yDevice) ← makeCoordinate p.2
  return { x, y, xDevice, yDevice }

def calledBuilders (calls : Option Calls) : Work (List (List BuilderId)) := do
  match calls with
  | none => throw .missingPart
  | some calls => calls.mapM fun slot => (slot.getD []).mapM fun
      | .ref { routine := some i, .. } => Work.builderOf i
      | _ => throw .missingPart

/-! ### Positioning -/

def addPlace (value : Value) (mapping : List (String × Value)) (glyph : String) :
    Except Fault (List (String × Value)) :=
  match Dict.get? mapping glyph with
  | some v => if v.same value then .ok (Dict.set mapping glyph value) else .error .conflictingLookup
  | none => .ok (Dict.set mapping glyph value)

def asPositioning (r : Rule) : Work Positioning :=
  match r.body with
  | .positioning p => return p
  | _ => throw .missingPart

def asAttachment (r : Rule) : Work Attachment :=
  match r.body with
  | .attachment a => return a
  | _ => throw .missingPart

def placeContents (rules : List Rule) : Work Contents := do
  let m ← rules.foldlM (fun m r => do
    let p ← asPositioning r
    let values ← p.values.mapM makeValue
    match p.glyphs, values with
    | [] :: _, _ => return m
    | gs :: _, v :: _ => ofExcept (gs.foldlM (addPlace v) m)
    | _, _ => throw .outOfRange) []
  return .place m

def pairContents (rules : List Rule) : Work Contents := do
  let (classes, pairs) ← rules.foldlM (fun (classes, pairs) r => do
    let p ← asPositioning r
    let values ← p.values.mapM makeValue
    match p.glyphs, values with
    | [a, b], v :: w :: _ =>
      match a, b with
      | [x], [y] =>
        if pairs.any fun (q : (String × String) × Value × Value) => q.1 == (x, y) then return (classes, pairs)
        else return (classes, pairs ++ [((x, y), v, w)])
      | _, _ => return (classes ++ [(a, v, b, w)], pairs)
    | _, _ => throw .outOfRange) ([], [])
  return .pair classes pairs

def cursiveContents (rules : List Rule) : Work Contents := do
  let attachments ← rules.foldlM (fun done r => do
    let a ← asAttachment r
    let glyphs := Text.distinct (a.bases.map (·.1) ++ a.marks.map (·.1))
    glyphs.foldlM (fun done g => do
      let anchor (d : List (String × Point)) : Work (Option AnchorPoint) :=
        match Dict.get? d g with
        | some p => return some (← makeAnchor p)
        | none => return none
      return Dict.set done g (← anchor a.bases, ← anchor a.marks)) done) []
  return .cursive attachments

def markContents (toMark : Bool) (rules : List Rule) : Work Contents := do
  let (marks, bases) ← rules.foldlM (fun (marks, bases) r => do
    let a ← asAttachment r
    let marks ← a.marks.foldlM (fun marks (g, p) => do
      match Dict.get? marks g with
      | some (first, _) =>
        throw (.refused (.markTwice g (a.markName.getD "None") (first.getD "None")))
      | none => return Dict.set marks g (a.markName, ← makeAnchor p)) marks
    let bases ← a.bases.foldlM (fun bases (g, p) => do
      let anchor ← makeAnchor p
      return Dict.alter bases g [] fun as => Dict.set as a.markName anchor) bases
    return (marks, bases)) ([], [])
  return .marks toMark marks bases

def posChainRule (r : Rule) : Work ChainRule := do
  match r.body with
  | .positioning p =>
    let calls ← (p.glyphs.zip p.values).mapM fun (gs, v) => do
      let contents ← placeContents [{ body := .positioning { glyphs := [gs], values := [v] } }]
      return [← Work.addBuilder { contents }]
    return ⟨p.before, p.glyphs, p.after, calls⟩
  | _ =>
    let calls ← calledBuilders r.calls
    return ⟨r.before, r.input.getD [], r.after, calls⟩

def posContents (type : Option Int) (rules : List Rule) : Work Contents := do
  match type with
  | none => throw .wrongKind
  | some 1 => placeContents rules
  | some 2 => pairContents rules
  | some 3 => cursiveContents rules
  | some 4 => markContents false rules
  | some 6 => markContents true rules
  | some 8 => return .chain .pos (← rules.mapM posChainRule)
  | some n => throw (.refused (.buildPos n))

/-! ### Substitution -/

def asSubstitution (r : Rule) : Work Substitution :=
  match r.body with
  | .substitution s => return s
  | _ => throw .missingPart

def needed {α : Type} : Option α → Work α
  | some a => return a
  | none => throw .wrongKind

def firstOf {α : Type} : List α → Work α
  | a :: _ => return a
  | [] => throw .outOfRange

def singleContents (rules : List Rule) : Work Contents := do
  let m ← rules.foldlM (fun m r => do
    let s ← asSubstitution r
    let input ← firstOf (← needed s.input)
    let output ← firstOf (← needed s.replacement)
    return Dict.merge m (input.zip output)) []
  return .single m

def multipleContents (rules : List Rule) : Work Contents := do
  let m ← rules.foldlM (fun m r => do
    let s ← asSubstitution r
    let output ← (← needed s.replacement).mapM firstOf
    let input ← firstOf (← firstOf (← needed s.input))
    return Dict.set m input output) []
  return .multiple m

/-- Every way to choose one glyph from each slot, the last slot changing fastest. -/
def product : List Slot → List (List String)
  | [] => [[]]
  | s :: rest => s.flatMap fun g => (product rest).map (g :: ·)

def ligatureContents (rules : List Rule) : Work Contents := do
  let l ← rules.foldlM (fun l r => do
    let s ← asSubstitution r
    (product (← needed s.input)).foldlM (fun l sequence => do
      return Dict.set l sequence (← firstOf (← firstOf (← needed s.replacement)))) l) []
  return .ligature l

def subChainRule (r : Rule) : Work ChainRule := do
  let isSubstitution := match r.body with
    | .substitution { replacement := some (_ :: _), .. } => true
    | _ => false
  if isSubstitution then
    let s ← asSubstitution r
    let calls ← ((← needed s.input).zip (s.replacement.getD [])).mapM fun (left, right) => do
      let contents ← singleContents
        [{ body := .substitution { input := some [left], replacement := some [right] } }]
      return [← Work.addBuilder { contents }]
    return ⟨s.before, s.input.getD [], s.after, calls⟩
  else
    let calls ← calledBuilders r.calls
    return ⟨r.before, r.input.getD [], r.after, calls⟩

def reverseRule (r : Rule) : Work ReverseRule := do
  let s ← asSubstitution r
  let pairs := (← needed s.input).zip (← needed s.replacement)
  let mapping ← pairs.mapM fun (l, r) => do return (← firstOf l, ← firstOf r)
  return ⟨s.before, s.after, Dict.merge [] mapping⟩

def subContents (type : Option Int) (rules : List Rule) : Work Contents := do
  match type with
  | none => throw .wrongKind
  | some 1 => singleContents rules
  | some 2 => multipleContents rules
  | some 4 => ligatureContents rules
  | some 6 => return .chain .sub (← rules.mapM subChainRule)
  | some 8 => return .reverse (← rules.mapM reverseRule)
  | some n => throw (.refused (.buildSub n))

/-! ### Routines -/

def commonType (b : Book) (rules : List Rule) : Except Fault (Option Int) := do
  let types ← rules.mapM b.lookupType
  if types.any (· != types.headD none) then throw (.refused .notOneType)
  return types.headD none

def buildRoutine (i : RoutineId) : Work (List BuilderId) := do
  let b := (← get).book
  let rules := b.rulesOf i
  let type ← ofExcept (commonType b rules)
  match rules with
  | [] => throw .outOfRange
  | first :: _ =>
    if rules.any (·.flags != first.flags) then throw (.refused .notOneFlag)
    Work.onBook (modify fun b => b.alterRoutine i fun r => { r with flags := first.flags })
    let start := (← get).builders.size
    let stage ← ofExcept ((← get).book.routineStage i)
    let contents ← if stage == some .pos then posContents type rules
      else subContents type rules
    let id ← Work.addBuilder { contents, flags := first.flags }
    modify fun w => { w with ofRoutine := (w.ofRoutine.filter (·.1 != i)) ++ [(i, id)] }
    return (List.range (id + 1)).drop start

end GlyphRules.Build
