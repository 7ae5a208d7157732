import GlyphRules.Font.Metrics

/-! Comparisons in commands.

A comparison with zero only asks whether the left side is there and not zero. An unknown measure
stands in every relation to a number that is not zero. -/
namespace GlyphRules.Command

inductive Relation where
  | atLeast | atMost | equal | less | greater
deriving DecidableEq

namespace Relation

/-- Every relation with its sign; a longer sign comes before its start. -/
def signs : List (String × Relation) :=
  [(">=", atLeast), ("<=", atMost), ("==", equal), ("<", less), (">", greater)]

def ofSign? (sign : String) : Option Relation := (signs.find? (·.1 == sign)).map (·.2)

def between (r : Relation) (a b : Number) : Bool :=
  match r with
  | atLeast => Number.le b a
  | atMost => Number.le a b
  | equal => a == b
  | less => Number.lt a b
  | greater => Number.lt b a

/-- Whether a comparison comes out true. -/
def holds (r : Relation) (left : Option Number) (right : Int) : Bool :=
  match left with
  | some a => if right == 0 then !a.isZero else r.between a (.int right)
  | none => right != 0

/-- Compare by a sign. A sign that means nothing is noticed only when it is needed. -/
def compare (sign : String) (left : Option Number) (right : Int) : Except Fault Bool :=
  match ofSign? sign with
  | some r => .ok (r.holds left right)
  | none => if right == 0 then .ok (equal.holds left right) else .error .notFound

end Relation
end GlyphRules.Command
