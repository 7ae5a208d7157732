import GlyphRules.Book.Reference
import GlyphRules.Book.Languages

/-! Splitting a routine.

`Act.partition` splits a routine by a factor of its rules: those with the first factor stay, the
others go to copies behind it, one for each factor. Whatever called the routine calls all of them.
-/
namespace GlyphRules

def replaceCall (b : Book) (old : RoutineId) (new : List RoutineId) (l : Lookup) : List Lookup :=
  if l.routine? == some old then new.map fun i => .ref (Reference.make b none (some i)) else [l]

namespace Act

def copyWith (i : RoutineId) (ids : List RuleId) : Act RoutineId := do
  let (j, b) := (← get).addRoutine ((← get).routine i)
  set (b.setRules j ids)
  return j

/-- Divide the rules of a routine, given its place among those in force. The first group stays;
copies with the others follow behind it. -/
def divide (i : RoutineId) (index : Nat) (groups : List (List RuleId)) : Act (List RoutineId) := do
  let copies ← (groups.drop 1).mapM (copyWith i)
  modify fun b => b.setRules i (groups.headD [])
  modify fun b => { b with order := b.order.take index ++ i :: copies ++ b.order.drop (index + 1) }
  return i :: copies

def redirectSlot (old : RoutineId) (new : List RoutineId) (user : RuleId) : Option (List Lookup) × Nat → Act Unit
  | (none, _) => throw .wrongKind
  | (some l, ix) => modify fun b =>
    b.setCalls user (((b.rule user).calls.getD []).set ix (some (l.flatMap (replaceCall b old new))))

/-- Make a rule call the new routines where it called the old one, position by position. -/
def redirect (old : RoutineId) (new : List RoutineId) (user : RuleId) : Act Unit := do
  let calls := (((← get).rule user).calls).getD []
  calls.zipIdx.forM (redirectSlot old new user)

def redirectAll (old : RoutineId) (new : List RoutineId) (users : List RuleId) : Act Unit := do
  users.forM (redirect old new)
  modify fun b => { b with features := b.features.map fun (tag, l) => (tag, l.flatMap (replaceCall b old new)) }

/-- Split a routine by a factor of its rules. A routine without rules is left alone. -/
def partition {β : Type} [BEq β] (i : RoutineId) (factor : Book → Rule → Except Fault β) :
    Act (Option (List RoutineId)) := do
  match (← get).ruleIds i with
  | [] => return none
  | ids =>
    modify fun b => { b with usageMarked := false }
    markUsage
    let b ← get
    match b.indexOf? i with
    | none => throw .badValue
    | some index =>
      let factors ← ofExcept (ids.mapM fun id => do return (id, ← factor b (b.rule id)))
      let all ← divide i index ((groupBy factors).map (·.2))
      redirectAll i all (b.routine i).usedIn
      return some all

end Act
end GlyphRules
