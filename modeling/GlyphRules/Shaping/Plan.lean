import GlyphRules.Fault

/-! The plan of a shaping: features in groups, and pauses between them.

A feature is in the plan once. A pause is a step of the script's own. -/
namespace GlyphRules.Shaping

/-- What a script does between groups of features. -/
inductive Pause where
  | cutSyllables
  | reorder
  | reorderAgain
  | forgetSubstitutions
  | markReph
  | markPrebase
deriving DecidableEq

inductive PlanStep where
  | features (tags : List String)
  | pause (p : Pause)
deriving DecidableEq

abbrev Plan := List PlanStep

namespace Plan

def empty : Plan := [.features []]

def has (p : Plan) (tag : String) : Bool :=
  p.any fun
    | .features tags => tags.contains tag
    | .pause _ => false

def addOne (p : Plan) (tag : String) : Plan :=
  if p.has tag then p
  else
    match p.getLast? with
    | some (.features tags) => p.dropLast ++ [.features (tags ++ [tag])]
    | _ => p ++ [.features [tag]]

def add (p : Plan) (tags : List String) : Plan := tags.foldl addOne p

def next (p : Plan) : Plan := p ++ [.features []]

/-- A step of the script, and a new group after it. -/
def pause (p : Plan) (what : Pause) : Plan := p ++ [.pause what, .features []]

def remove (p : Plan) (tag : String) : Plan :=
  p.map fun
    | .features tags => .features (tags.erase tag)
    | .pause what => .pause what

end Plan

structure UserFeature where
  tag : String
  on : Bool
deriving DecidableEq

end GlyphRules.Shaping
