import GlyphRules.Dict
import GlyphRules.Number.Basic

/-! Plain data: the tree in which rules are exchanged with other programs.

The order of a record's fields carries no meaning. Fractions are written with six places, which
tells a number that was divided from one that was not. -/
namespace GlyphRules

/-- A tree of plain values. -/
inductive Data where
  | null
  | bool (b : Bool)
  | number (n : Number)
  | text (s : String)
  | list (items : List Data)
  | record (fields : List (String × Data))
deriving Inhabited

namespace Data

def int (n : Int) : Data := number (.int n)

def get (d : Data) (key : String) : Data :=
  match d with
  | record fields => (Dict.get? fields key).getD null
  | _ => null

def has (d : Data) (key : String) : Bool :=
  match d with
  | record fields => Dict.has fields key
  | _ => false

def isNull : Data → Bool
  | null => true
  | _ => false

/-- What is read from data that may be missing. -/
def optional {α : Type} (f : Data → α) (d : Data) : Option α := if d.isNull then none else some (f d)

def items : Data → List Data
  | list l => l
  | _ => []

def asText? : Data → Option String
  | text s => some s
  | _ => none

def asText (d : Data) : String := d.asText?.getD ""

def asInt? : Data → Option Int
  | number (.int n) => some n
  | _ => none

def asInt (d : Data) : Int := d.asInt?.getD 0

def asNat (d : Data) : Nat := d.asInt.toNat

def asNumber? : Data → Option Number
  | number n => some n
  | _ => none

def asBool (d : Data) : Bool :=
  match d with
  | bool b => b
  | _ => false

def texts (d : Data) : List String := d.items.map asText

def pair (d : Data) : String × Data :=
  match d with
  | list (k :: v :: _) => (k.asText, v)
  | _ => ("", null)

def pairs (d : Data) : List (String × Data) := d.items.map pair

/-- A fraction with six places; minus zero has no sign. -/
def sixPlaces (x : Float) : String :=
  let s := Decimal.fixed 6 x
  if s == "-0.000000" then "0.000000" else s

end Data
end GlyphRules
