import GlyphRules.Book.Basic

/-! Stages and lookup types.

A routine runs in the stage of its first rule; a chain in that of the first routine it calls. Chains
may call each other in a circle, so the search carries the number of steps left. The type of a rule
is the number of the OpenType lookup that would hold it. -/
namespace GlyphRules

def Calls.first? (c : Calls) : Option Lookup := c.entries.head?

/-- Whether any position calls something or is at least a list. -/
def Calls.anyGiven (c : Calls) : Bool := c.any (·.isSome)

namespace Book

/-- The stage of a routine, found in a bounded number of steps. -/
def routineStageWithin (b : Book) : Nat → RoutineId → Except Fault (Option Stage)
  | 0, _ => .error .endless
  | fuel + 1, i =>
    match (b.routine i).content with
    | .missing => .error .missingPart
    | .extension [] => .error .outOfRange
    | .extension (r :: _) => b.routineStageWithin fuel r
    | .rules [] => .ok none
    | .rules (r :: _) =>
      match (b.rule r).body with
      | .substitution _ => .ok (some .sub)
      | .positioning _ => .ok (some .pos)
      | .attachment _ => .ok (some .pos)
      | .chaining c =>
        match c.calls.first? with
        | none => .ok none
        | some (.bare r) => b.routineStageWithin fuel r
        | some (.ref { routine := none, .. }) => .error (.refused .unresolvedReference)
        | some (.ref { routine := some r, .. }) => b.routineStageWithin fuel r

def routineStage (b : Book) (i : RoutineId) : Except Fault (Option Stage) :=
  b.routineStageWithin (b.routines.size + 1) i

def lookupStage (b : Book) : Lookup → Except Fault (Option Stage)
  | .bare r => b.routineStage r
  | .ref { routine := none, .. } => .error (.refused .unresolvedReference)
  | .ref { routine := some r, .. } => b.routineStage r

def callsStage (b : Book) (calls : Calls) : Except Fault (Option Stage) :=
  match calls.first? with
  | none => .ok none
  | some l => b.lookupStage l

def ruleStage (b : Book) (r : Rule) : Except Fault (Option Stage) :=
  match r.body with
  | .substitution _ => .ok (some .sub)
  | .positioning _ => .ok (some .pos)
  | .attachment _ => .ok (some .pos)
  | .chaining c => b.callsStage c.calls

end Book

/-! ### Lookup types -/

/-- The type of a substitution. In feature files a context does not change it.
A rule that fits no type has none. -/
def Substitution.lookupType (s : Substitution) (inFeatureFile : Bool) : Except Fault (Option Int) :=
  if s.reversal.counts then .ok (some 8)
  else
    match s.replacement with
    | none | some [] => .ok (some 2)
    | some out =>
      let context := !s.before.isEmpty || !s.after.isEmpty
      if (context && !inFeatureFile) || s.calls.anyGiven then .ok (some 6)
      else
        match s.input with
        | none => .error .wrongKind
        | some inp =>
          match inp, out with
          | [i], [o] =>
            if s.alternate || (i.length == 1 && o.length > 1) then .ok (some 3) else .ok (some 1)
          | [], [_] => .ok none
          | _ :: _ :: _, [_] => .ok (some 4)
          | _ :: _ :: _, _ => .ok (some 9)
          | _, _ => .ok (some 2)

def Positioning.lookupType (p : Positioning) : Int :=
  if p.before.isEmpty && p.after.isEmpty then
    if p.glyphs.length == 1 then 1 else if p.glyphs.length == 2 then 2 else 8
  else 8

def Attachment.lookupType (a : Attachment) : Except Fault Int :=
  if a.isCursive then .ok 3
  else
    match a.bases with
    | [] => .error .outOfRange
    | (first, _) :: _ =>
      match a.font with
      | none => .ok 4
      | some f => do
        let g ← f.get first
        return if g.category == some "mark" then 6 else 4

def Book.lookupType (b : Book) (r : Rule) : Except Fault (Option Int) :=
  match r.body with
  | .substitution s => s.lookupType false
  | .positioning p => .ok (some p.lookupType)
  | .chaining c => do
    let stage ← b.callsStage c.calls
    return some (if stage == some .pos then 8 else 6)
  | .attachment a => do return some (← a.lookupType)

end GlyphRules
