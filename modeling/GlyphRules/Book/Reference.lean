import GlyphRules.Book.Stage

/-! References to routines.

Features hold references. Chains may hold references by name, references to routines, or routines
themselves; `Book.resolveAll` turns all into references to routines in force. -/
namespace GlyphRules

namespace Reference

def make (b : Book) (name : Option String) (routine : Option RoutineId) : Reference :=
  let taken := routine.map fun i => (b.routine i).name
  match name with
  | some n => if n.isEmpty then ⟨taken, routine⟩ else ⟨some (some n), routine⟩
  | none => ⟨taken, routine⟩

end Reference

namespace Book

def enforce (b : Book) (i : RoutineId) : Book :=
  if b.order.contains i then b else { b with order := b.order ++ [i] }

/-- A new reference to a routine, which is put in force and counted. -/
def referTo (b : Book) (i : RoutineId) : Reference × Book :=
  let b := (b.enforce i).alterRoutine i Routine.usedAgain
  (Reference.make b none (some i), b)

def resolve (b : Book) (r : Reference) : Except Fault Reference :=
  match r.routine with
  | some i =>
    match r.name with
    | none => .error .missingPart
    | some none | some (some "") => .ok { r with name := some (b.routine i).name }
    | _ => .ok r
  | none =>
    match r.name with
    | none => .error .missingPart
    | some n =>
      match b.routineNamed? n with
      | none => .error (.refused (.noRoutine (n.getD "None")))
      | some i =>
        match n with
        | none | some "" => .ok ⟨some (b.routine i).name, some i⟩
        | _ => .ok { r with routine := some i }

end Book

namespace Act

/-- Resolve one call; a routine that stands there itself becomes a reference to it. -/
def resolveLookup : Lookup → Act Lookup
  | .ref r => do
    let r ← ofExcept ((← get).resolve r)
    match r.routine with
    | some i => if (← get).order.contains i then return .ref r else throw .brokenPromise
    | none => throw .brokenPromise
  | .bare i => do
    let (r, b) := (← get).referTo i
    set b
    return .ref r

/-- Resolve the calls at one position; an empty position calls nothing. -/
def resolveSlot : Option (List Lookup) → Act (Option (List Lookup))
  | none => return none
  | some [] => return none
  | some l => return some (← l.mapM resolveLookup)

def resolveAt (rule : RuleId) (ix : Nat) : Act Unit := do
  let slot ← resolveSlot ((((← get).rule rule).calls.getD []).getD ix none)
  modify fun b => b.setCalls rule (((b.rule rule).calls.getD []).set ix slot)

def resolveCalls (rule : RuleId) : Act Unit := do
  match ((← get).rule rule).body with
  | .chaining c => (List.range c.calls.length).forM (resolveAt rule)
  | _ => pure ()

/-- Resolve the routines from position `n` on; the list may grow meanwhile, by no more
routines than there are. -/
def resolveFrom : Nat → Nat → Act Unit
  | 0, _ => pure ()
  | fuel + 1, n => do
    let b ← get
    match b.order[n]? with
    | none => pure ()
    | some i =>
      (b.ruleIds i).forM resolveCalls
      resolveFrom fuel (n + 1)

/-- Make every call a reference to a routine in force. -/
def resolveAll : Act Unit := do
  let b ← get
  resolveFrom (b.order.length + b.routines.size + 1) 0

end Act

namespace Book

/-- Add a call to a feature; a routine becomes a reference to it. -/
def addCall (tag : String) (b : Book) (l : Lookup) : Book :=
  match l with
  | .ref r => { b with features := Dict.alter b.features tag [] (· ++ [.ref r]) }
  | .bare i =>
    let (r, b) := b.referTo i
    { b with features := Dict.alter b.features tag [] (· ++ [.ref r]) }

def addFeature (b : Book) (tag : String) (items : List Lookup) : Book :=
  items.foldl (addCall tag) { b with features := Dict.alter b.features tag [] id }

def allRules (b : Book) : List RuleId := b.order.flatMap b.ruleIds

def dependencies (r : Rule) : List (Option RoutineId) :=
  match r.body with
  | .chaining c => c.calls.entries.map Lookup.routine?
  | _ => []

def routineDependencies (b : Book) (i : RoutineId) : List (Option RoutineId) :=
  (b.rulesOf i).flatMap dependencies

end Book

namespace Act

def countCall (id : RuleId) (l : Lookup) : Act Unit := do
  match l.routine? with
  | none => throw .missingPart
  | some i => modify fun b => b.alterRoutine i (·.noteUser id)

def countCalls (id : RuleId) : Act Unit := do
  match ((← get).rule id).body with
  | .chaining c => c.calls.entries.forM (countCall id)
  | _ => pure ()

def markUsage : Act Unit := do
  let b ← get
  if b.usageMarked then return
  set (b.order.foldl (fun b i => b.alterRoutine i Routine.unmarked) b)
  b.allRules.forM countCalls
  modify fun b => { b with usageMarked := true }

end Act
end GlyphRules
