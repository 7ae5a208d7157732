/-! Ordered dictionaries: lists of keys with their values. -/
namespace GlyphRules

namespace Dict

variable {κ α : Type} [BEq κ]

def get? (d : List (κ × α)) (k : κ) : Option α := (d.find? (·.1 == k)).map (·.2)

def has (d : List (κ × α)) (k : κ) : Bool := d.any (·.1 == k)

/-- Set the value of a key; a new key goes to the end. -/
def set (d : List (κ × α)) (k : κ) (v : α) : List (κ × α) :=
  if has d k then d.map fun (k', v') => if k' == k then (k', v) else (k', v') else d ++ [(k, v)]

/-- Change the value of a key, from a default if it is new. -/
def alter (d : List (κ × α)) (k : κ) (start : α) (f : α → α) : List (κ × α) :=
  set d k (f ((get? d k).getD start))

/-- The entries of the second over those of the first. -/
def merge (a b : List (κ × α)) : List (κ × α) := b.foldl (fun d (k, v) => set d k v) a

end Dict

/-- The items of each key, in the order of the first item of each. -/
def groupBy {α β : Type} [BEq β] (items : List (α × β)) : List (β × List α) :=
  items.foldl (fun groups (a, k) =>
    if Dict.has groups k then groups.map fun (k', as) => if k' == k then (k', as ++ [a]) else (k', as)
    else groups ++ [(k, [a])]) []

end GlyphRules
