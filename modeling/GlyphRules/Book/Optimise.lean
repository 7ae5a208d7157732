import GlyphRules.Feature.RoutineText

/-! Making a book smaller.

Adjacent single substitutions under one context are merged. Slots of more than five glyphs become
named classes. Routines whose glyphs have nothing in common may become one. -/
namespace GlyphRules.Optimise

/-! ### Single substitutions -/

/-- One glyph for one glyph; `none` where a side was never written. -/
def isSingle (r : Rule) : Except Fault Bool :=
  match r.body with
  | .substitution s =>
    match s.input with
    | none => .error .wrongKind
    | some [_] =>
      match s.replacement with
      | none => .error .wrongKind
      | some out => .ok (out.length == 1)
    | _ => .ok false
  | _ => .ok false

/-- What each glyph of a slot becomes; a later entry for a glyph wins. -/
def mapping (input output : Slot) : List (String × String) := Dict.merge [] (input.zip output)

def compose (first second : List (String × String)) : List (String × String) :=
  let through := first.map fun (l, r) => (l, (Dict.get? second r).getD r)
  through ++ second.filter fun (l, _) => !Dict.has through l

def firstSlot (slots : Option (List Slot)) : Slot := (slots.getD []).headD []

def mergeSingles (a b : Substitution) (address : Address) : Rule :=
  let both := compose (mapping (firstSlot a.input) (firstSlot a.replacement))
    (mapping (firstSlot b.input) (firstSlot b.replacement))
  { body := .substitution
      { input := some [both.map (·.1)], replacement := some [both.map (·.2)], before := a.before, after := a.after }
    address }

def mergeable? (previous r : Rule) : Except Fault (Option Rule) := do
  if !(← isSingle r) then return none
  if !(← isSingle previous) then return none
  match previous.body, r.body with
  | .substitution a, .substitution b =>
    if a.before == b.before && a.after == b.after then
      return some (mergeSingles a b (if previous.address.counts then previous.address else r.address))
    else return none
  | _, _ => return none

/-- Put a rule behind those that are done, last first, merged into the last if it can be. -/
def mergeNext (done : List RuleId) (id : RuleId) : Act (List RuleId) := do
  let b ← get
  match done with
  | [] => return [id]
  | last :: before =>
    match ← ofExcept (mergeable? (b.rule last) (b.rule id)) with
    | none => return id :: done
    | some rule =>
      let (new, b) := b.addRule rule
      set b
      return new :: before

def mergeAdjacent (i : RoutineId) : Act Unit := do
  match (← get).ruleIds i with
  | first :: second :: rest =>
    let merged ← (second :: rest).foldlM mergeNext [first]
    modify fun b => b.setRules i merged.reverse
  | _ => pure ()

/-! ### Long slots -/

/-- A slot of more than five glyphs becomes a named class, in the order they are in. -/
def nameSlot (s : Slot) : Act Slot := do
  if s.length > 5 then
    let name := "class" ++ (← Feature.nextIndex)
    let (name, b) := (← get).classFor s name
    set b
    return ["@" ++ name]
  else return s

def nameLong (slots : List Slot) : Act (List Slot) := slots.mapM nameSlot

def nameLong? (slots : Option (List Slot)) : Act (Option (List Slot)) :=
  match slots with
  | none => throw .wrongKind
  | some s => return some (← nameLong s)

def nameLongSlots (id : RuleId) : Act Unit := do
  let put (body : RuleBody) : Act Unit := modify fun b => b.alterRule id fun r => { r with body }
  match ((← get).rule id).body with
  | .substitution s =>
    let s := { s with input := ← nameLong? s.input }
    put (.substitution s)
    let s := { s with before := ← nameLong s.before }
    put (.substitution s)
    let s := { s with after := ← nameLong s.after }
    put (.substitution s)
    put (.substitution { s with replacement := ← nameLong? s.replacement })
  | .positioning p =>
    let p := { p with glyphs := ← nameLong p.glyphs }
    let p := { p with before := ← nameLong p.before }
    put (.positioning { p with after := ← nameLong p.after })
  | _ => pure ()

def nameAll (i : RoutineId) : Act Unit := do
  for id in (← get).ruleIds i do
    nameLongSlots id

def routine (level : Int) (i : RoutineId) : Act Unit := do
  if level ≥ 1 then
    mergeAdjacent i
    nameAll i

/-! ### Routines without common glyphs -/

def hasChains (b : Book) (i : RoutineId) : Bool :=
  (b.rulesOf i).any Rule.isChain

def involved (b : Book) (i : RoutineId) : Except Fault (List String) :=
  match b.rulesOf i with
  | [] => .error .wrongKind
  | rules => do return (← rules.mapM Rule.involved).flatten

def usedAmong (b : Book) (i : RoutineId) : Except Fault (List String) := do
  return (← (b.routine i).usedIn.mapM fun id => (b.rule id).involved).flatten

def disjoint (a b : List String) : Bool := !a.any b.contains

/-- Whether the rules of two routines could stand in one lookup. -/
def compatible (l r : RoutineId) : Act Bool := do
  let b ← get
  let (i, b) := b.addRoutine { content := .rules (b.ruleIds l ++ b.ruleIds r) }
  set b
  if Feature.anyParts (← Feature.arrangeByType i) then return false
  return !Feature.anyParts (← Feature.arrangeByFlags i)

def nonOverlapping (l r : RoutineId) : Act Bool := do
  let b ← get
  let apart ← ofExcept do
    if !disjoint (← involved b l) (← involved b r) then return false
    return disjoint (← usedAmong b l) (← usedAmong b r)
  if apart then compatible l r else return false

def mergedName (first second : Routine) : Option String :=
  let given (n : Option String) : Bool := n.getD "" != ""
  if given first.name && given second.name then some (first.name.getD "" ++ "_" ++ second.name.getD "")
  else if given second.name then second.name else first.name

/-- The chains that call either of two routines. -/
def mergedUsers (first second : Routine) : List RuleId :=
  first.usedIn ++ second.usedIn.filter fun u => !first.usedIn.contains u

/-- A call of the second routine itself becomes one of the first. -/
def firstInstead (l r : RoutineId) (x : Lookup) : Lookup := if x == .bare r then .bare l else x

def callFirst (l r : RoutineId) (user : RuleId) : Act Unit :=
  modify fun b => b.setCalls user ((((b.rule user).calls).getD []).map (Option.map (List.map (firstInstead l r))))

def mergeRoutines (l r : RoutineId) : Act Unit := do
  let b ← get
  let (first, second) := (b.routine l, b.routine r)
  modify fun b => (b.setRules l (b.ruleIds l ++ b.ruleIds r)).alterRoutine l fun x =>
    { x with name := mergedName first second
             usedIn := mergedUsers first second
             comments := first.comments ++ second.comments }
  for user in mergedUsers first second do
    callFirst l r user

/-- What stands in the place of a routine that was merged away, until all merging is done. -/
def placeholder : Routine := { name := some "dead" }

def mergeAt (dead l : RoutineId) (place : Nat) : Act Unit := do
  let b ← get
  let r := b.order.getD place dead
  if hasChains b r || r == dead then return
  if ← nonOverlapping l r then
    mergeRoutines l r
    modify fun b => { b with order := b.order.set place dead }

def mergeInto (dead : RoutineId) (place : Nat) : Act Unit := do
  let b ← get
  let l := b.order.getD place dead
  if hasChains b l || l == dead then return
  ((List.range b.order.length).drop (place + 1)).forM (mergeAt dead l)

def mergeNonOverlapping : Act Unit := do
  Act.markUsage
  let (dead, b) := (← get).addRoutine placeholder
  set b
  (List.range b.order.length).forM (mergeInto dead)
  modify fun b => { b with order := b.order.filter (· != dead) }

/-- Optimise a whole book. Features hold references, which have no rules to optimise. -/
def book (level : Int) : Act Unit := do
  for i in (← get).order do
    routine level i
  let b ← get
  if level ≥ 1 && b.features.any fun (_, ls) => !ls.isEmpty then throw .missingPart
  if level ≥ 2 then mergeNonOverlapping

end GlyphRules.Optimise
