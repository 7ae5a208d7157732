import GlyphRules.Book.Stage
import GlyphRules.Feature.Statement

/-! Rules as statements.

Most rules become one statement. A substitution whose classes go together pair
by pair becomes a block with one statement for each pair. -/
namespace GlyphRules.Feature

def slotRef : Slot → GlyphRef
  | [g] => .name g
  | gs => .members gs

def sortedSlotRef : Slot → GlyphRef
  | [g] => .name g
  | gs => .members (Text.sort gs)

/-! ### Substitutions -/

def classLengths (slots : List Slot) : List Nat := (slots.map List.length).filter (· != 1)

def hasClasses (input output : List Slot) : Bool := (input ++ output).any (·.length > 1)

def equalClasses (input output : List Slot) : Bool :=
  match classLengths input ++ classLengths output with
  | [] => true
  | n :: rest => rest.all (· == n)

def isPaired (input output : List Slot) : Bool :=
  match classLengths input, classLengths output with
  | [a], [b] => a == b
  | _, _ => false

def isUnbalanced (input output : List Slot) : Bool :=
  match classLengths input, classLengths output with
  | [a], [b] => a != b
  | _, _ => false

/-- Row `i` of slots read in parallel: single glyphs repeat. -/
def row (slots : List Slot) (i : Nat) : List String :=
  slots.map fun s =>
    match s with
    | [g] => g
    | s => s.getD i ""

/-- The number of rows before the shortest class ends; single glyphs never end. -/
def rowCount? (slots : List Slot) : Option Nat :=
  ((slots.map List.length).filter (· != 1)).foldl
    (fun m n => some (match m with | none => n | some m => Nat.min m n)) none

def pairedLigatures (s : Substitution) (input output : List Slot) : List Statement :=
  let rows := match rowCount? input, rowCount? output with
    | some a, some b => Nat.min a b
    | some a, none => if output.isEmpty then 0 else a
    | none, some b => if input.isEmpty then 0 else b
    | none, none => 0
  (List.range rows).map fun i =>
    .ligature (s.before.map slotRef) ((row input i).map .name) (s.after.map slotRef)
      (.name ((row output i).headD ""))

def pairedMultiples (s : Substitution) (input output : List Slot) : Except Fault (List Statement) := do
  match input with
  | [from_] =>
    let singles := (output.filter (·.length == 1)).length
    if singles != output.length && singles + 1 != output.length then
      throw (.refused .ambiguousClasses)
    let at_ := (output.findIdx? (·.length > 1)).getD 0
    let to_ := output.getD at_ []
    if from_.length != to_.length then throw (.refused (.classLength from_.length to_.length))
    return List.zipWith (fun f t =>
      .multiple (s.before.map slotRef) (.name f) (s.after.map slotRef)
        ((output.take at_).map slotRef ++ [.name t] ++ (output.drop (at_ + 1)).map slotRef)) from_ to_
  | _ => throw (.refused .multipleInput)

def ofSlots (s : Substitution) (type : Int) (input output : List Slot) : Except Fault Statement := do
  let before := s.before.map slotRef
  let after := s.after.map slotRef
  let first : Except Fault GlyphRef :=
    match input with
    | [] => .error .outOfRange
    | g :: _ => .ok (slotRef g)
  match output with
  | [] => return .multiple before (← first) after []
  | firstOut :: _ =>
    match type with
    | 1 => return .single before (input.map slotRef) after (output.map slotRef)
    | 2 =>
      if isPaired input output then return .block (← pairedMultiples s input output)
      else return .multiple before (← first) after (output.map slotRef)
    | 3 => return .alternate before (← first) after (.members firstOut)
    | 4 =>
      if hasClasses input output && equalClasses input output && firstOut.length != 1 then
        return .block (pairedLigatures s input output)
      else return .ligature before (input.map slotRef) after (slotRef firstOut)
    | 8 => return .reverse before (input.map slotRef) after [slotRef firstOut]
    | _ => throw (.unsupported (if type ≥ 9 then .lookupType type else .useChain))

def ofSubstitution (s : Substitution) : Except Fault Statement := do
  match ← s.lookupType true with
  | none => return .comment ""
  | some type =>
    match s.input with
    | none => throw .wrongKind
    | some input => ofSlots s type input (s.replacement.getD [])

def substitutionWarning? (s : Substitution) : Option String :=
  match s.lookupType true, s.input, s.replacement with
  | .ok (some 2), some input, some (o :: os) =>
    if isUnbalanced input (o :: os) then some "Unbalanced paired substitution" else none
  | _, _, _ => none

/-! ### Positionings -/

/-- Whether the glyphs of a slot can be put in order. -/
def isSortable (s : Slot) : Bool := s.length ≤ 1 || !s.contains nameless

def ofPositioning (p : Positioning) : Except Fault Statement :=
  if !(p.glyphs ++ p.before ++ p.after).all isSortable then .error .wrongKind else
  let marked := p.lookupType == 8
  if p.glyphs.length == 1 || marked then
    .ok (.place (p.before.map sortedSlotRef) ((p.glyphs.map sortedSlotRef).zip p.values)
      (p.after.map sortedSlotRef) marked)
  else
    match p.glyphs, p.values with
    | [a, b], [v, w] => .ok (.pair (sortedSlotRef a) v (sortedSlotRef b) w)
    | _, _ => .error .badValue

/-! ### Chains -/

def callName (b : Book) : Lookup → CallName
  | .bare i => some (b.routine i).name
  | .ref r => r.name

def ofChaining (b : Book) (c : Chaining) (unwritable : Bool) : Except Fault Statement := do
  let refs : Except Fault (List GlyphRef × List GlyphRef × List GlyphRef) := do
    if unwritable then throw .wrongKind
    match c.input with
    | none => throw .wrongKind
    | some input => return (c.before.map slotRef, input.map slotRef, c.after.map slotRef)
  if c.calls.anyGiven then
    let stage ← b.callsStage c.calls
    let (before, input, after) ← refs
    return .chain (if stage == some .sub then .sub else .pos) before input after
      (c.calls.map fun l => l.map fun l => l.map (callName b))
  else
    let (before, input, after) ← refs
    return .ignore before input after

/-! ### Attachments -/

def anchorRuns (glyphs : List (String × Point)) : List (List String × Point) :=
  glyphs.foldl (fun runs (g, p) =>
    let same := fun (q : Point) => p.1.same q.1 && p.2.same q.2
    if runs.any (same ·.2) then runs.map fun (gs, q) => if same q then (gs ++ [g], q) else (gs, q)
    else runs ++ [([g], p)]) []

def groupAnchors (a : Attachment) : Attachment :=
  { a with markRuns := some (anchorRuns a.marks), baseRuns := some (anchorRuns a.bases) }

def ofAttachment (a : Attachment) : Except Fault Statement := do
  if a.isCursive then
    let glyphs := Text.distinct (a.bases.map (·.1) ++ a.marks.map (·.1))
    return .block ((Text.sort glyphs).map fun g =>
      .cursive (.name g) (Dict.get? a.bases g) (Dict.get? a.marks g))
  else
    let runs := a.baseRuns.getD (anchorRuns a.bases)
    let statements ← runs.mapM fun (gs, p) => do
      let isMark ← match a.font with
        | none => pure false
        | some f => do pure ((← f.get (gs.headD "")).category == some "mark")
      pure (Statement.attach (isMark || a.markToMark) (slotRef gs) p (a.baseName.getD "None"))
    return .block statements

def ofRule (b : Book) (r : Rule) : Except Fault Statement :=
  match r.body with
  | .substitution s => if r.unwritable then .error .wrongKind else ofSubstitution s
  | .positioning p => if r.unwritable then .error .wrongKind else ofPositioning p
  | .chaining c => ofChaining b c r.unwritable
  | .attachment a => ofAttachment a

def ruleText (b : Book) (r : Rule) : Except Fault String := do (← ofRule b r).text

def ruleWarning? (r : Rule) : Option String :=
  match r.body with
  | .substitution s => substitutionWarning? s
  | _ => none

end GlyphRules.Feature
