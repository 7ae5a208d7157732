import GlyphRules.Book.Partition

/-! Routines by script and language.

For the tables of a font called routines come before their callers, every routine speaks of one list
of languages, and each feature says which routines are run for a language system. -/
namespace GlyphRules

namespace Book

/-- The routines that have a place, and one more behind them if it is new. -/
def place (placed : List RoutineId) (d : RoutineId) : List RoutineId :=
  if placed.contains d then placed else placed ++ [d]

/-- Give a routine its place, behind what it calls. What it calls and has no place yet is
fetched for it. -/
def placeWithCalls (calls : RoutineId → List RoutineId) (placed : List RoutineId) (i : RoutineId) :
    List RoutineId :=
  if placed.contains i then placed else (calls i).foldl place placed ++ [i]

/-- The routines with those that each one calls put in front of it. A call whose routine
is not known puts an unknown routine in force. -/
def orderByCalls (b : Book) : Book :=
  let (unknown, b') := b.addRoutine { name := none, content := .missing }
  let calls (i : RoutineId) : List RoutineId := (b.routineDependencies i).map (·.getD unknown)
  let order := b.order.foldl (placeWithCalls calls) []
  if order.contains unknown then { b' with order } else { b with order }

/-- The languages of a routine that holds the list of its first rule: what the list says now. -/
def heldLanguages (b : Book) (i : RoutineId) : Languages :=
  match (b.ruleIds i).head?.bind fun id => (b.rule id).languages with
  | some (.pairs (p :: ls)) => .pairs (p :: ls)
  | _ => (b.routine i).languages

/-- Every routine in force says what the list says that it holds in common with its first rule. -/
def shareLanguages (b : Book) : Book :=
  { b with routines := b.routines.mapIdx fun i r =>
      if b.order.contains i then { r with languages := b.heldLanguages i } else r }

end Book

namespace Act

/-- Do something with the routine at a place among those in force. The next place is
the one behind it. -/
def visit (f : RoutineId → Act Unit) (place : Nat) : Act (Option Nat) := do
  match (← get).order[place]? with
  | none => return none
  | some i =>
    f i
    return some (place + 1)

/-- Do something with every routine in force, also with those that are added behind the
current one meanwhile. -/
def forRoutines (f : RoutineId → Act Unit) : Act Unit := Step.repeated (visit f)

def splitByType (i : RoutineId) : Act Unit := do
  let _ ← partition i fun b r => b.lookupType r

def defaultSystem (s : LanguageSystem) : LanguageSystem :=
  if s.1 == "*" then ("DFLT", s.2) else if s.2 == "*" then (s.1, "dflt") else s

def setLanguages (id : RuleId) (ls : List LanguageSystem) : Act Unit :=
  modify fun b =>
    match (b.rule id).languageGroup with
    | none => b.alterRule id fun r => { r with languages := some (.pairs ls) }
    | some g => { b with rules := b.rules.map fun r =>
        if r.languageGroup == some g then { r with languages := some (.pairs ls) } else r }

/-- A routine takes the languages of its first rule. Both hold the list from then on, so what
another routine makes of it later is theirs too. -/
def takeLanguages (i : RoutineId) : Act Unit := do
  match (← get).ruleIds i with
  | [] => pure ()
  | first :: _ =>
    match ((← get).rule first).languages with
    | none | some (.pairs []) | some (.text "") =>
      modify fun b => b.alterRoutine i fun r => { r with languages := .pairs [("DFLT", "dflt")] }
    | some (.text s) =>
      modify fun b => b.alterRoutine i fun r => { r with languages := .text s }
      throw .outOfRange
    | some (.pairs ls) =>
      let ls := ls.map defaultSystem
      setLanguages first ls
      modify fun b => b.alterRoutine i fun r => { r with languages := .pairs ls }

end Act

structure FeatureKey where
  tag : String
  script : String
  language : String
deriving DecidableEq

/-- The calls of each feature by script and language; a call is known by its place in the feature. -/
abbrev FeatureMap := List (FeatureKey × List (Nat × Lookup))

def FeatureMap.put (m : FeatureMap) (key : FeatureKey) (call : Nat × Lookup) : FeatureMap :=
  Dict.alter m key [] fun cs => if Dict.has cs call.1 then cs else cs ++ [call]

def languagePairs (scripts : List (String × List String)) : List LanguageSystem :=
  scripts.foldl (fun ps (s, ls) =>
    (if ps.contains (s, "dflt") then ps else ps ++ [(s, "dflt")]) ++ ls.map fun l => (s, l)) []

def FeatureMap.putCovered (m : FeatureMap) (pairs : List LanguageSystem) (tag : String)
    (system : LanguageSystem) (call : Nat × Lookup) : FeatureMap :=
  let m := m.put ⟨tag, system.1, system.2⟩ call
  pairs.foldl (fun m (s, l) =>
    if system == ("DFLT", "dflt") || (system.1 == s && system.2 == "dflt") then m.put ⟨tag, s, l⟩ call
    else m) m

namespace Act

def arrangeByScripts : Act FeatureMap := do
  forRoutines fun i => do
    if ((← get).rulesOf i).any Rule.hasLanguages then
      let _ ← partition i fun _ r => .ok (r.languages.getD (.pairs []))
  for i in (← get).order do
    takeLanguages i
  modify Book.shareLanguages
  hoistLanguages
  let b ← get
  let pairs := languagePairs b.scripts
  b.features.foldlM (fun m (tag, calls) =>
    calls.zipIdx.foldlM (fun m (call, n) => do
      match call with
      | .bare _ | .ref { routine := none, .. } => throw .missingPart
      | .ref { routine := some i, .. } =>
        let systems ← ofExcept (b.routine i).languages.systems?
        return systems.foldl (fun m s => m.putCovered pairs tag s (n, call)) m) m) []

end Act
end GlyphRules
