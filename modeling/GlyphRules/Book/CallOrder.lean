import GlyphRules.Book.Reference

/-! The order in which routines are written.

A routine that is called stands before the chain that calls it. `Act.callOrder` resolves all calls,
notes that called routines are always written in full, and gives the new order. -/
namespace GlyphRules

/-- The use count of a routine that is always written in full. -/
def alwaysWritten : Int := 999

def Routine.written (r : Routine) : Routine := { r with usecount := alwaysWritten }

namespace Act

def placeOfCall (l : Lookup) : Act Nat := do
  match l with
  | .bare _ | .ref { routine := none, .. } => throw .missingPart
  | .ref { routine := some i, .. } =>
    modify fun b => b.alterRoutine i Routine.written
    match (← get).indexOf? i with
    | none => throw .badValue
    | some n => return n

def placesOfCalls (r : Rule) : Act (List Nat) := do
  match r.calls with
  | none => throw .missingPart
  | some calls => calls.entries.mapM placeOfCall

def moveBefore (at_ : Nat) (order : List Nat) (place : Nat) : List Nat :=
  let rest := order.erase place
  rest.take at_ ++ [place] ++ rest.drop at_

/-- The order after looking at the routine at one place: what it calls from
further on comes in front of it. -/
def orderAt (order : List Nat) (place : Nat) : Act (List Nat) := do
  let b ← get
  match b.order[place]? with
  | none => return order
  | some i =>
    let rules := b.rulesOf i
    if rules.any Rule.isChain then
      let places ← rules.mapM placesOfCalls
      return (places.flatten.filter (· > place)).foldl (moveBefore place) order
    else return order

def callOrder : Act (List Nat) := do
  resolveAll
  let n := (← get).order.length
  (List.range n).reverse.foldlM orderAt (List.range n)

end Act
end GlyphRules
