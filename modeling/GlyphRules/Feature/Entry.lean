import GlyphRules.Feature.Token
import GlyphRules.Rule.Basic

/-! What a feature file says.

A file is a list of entries: blocks of entries, settings and rules. The glyphs of a mark class are
known only at the end of the file, so a pattern may name such a class. -/
namespace GlyphRules.Feature

/-- Where a mark or a base is joined. -/
structure AnchorPoint where
  x : Int
  y : Int
deriving DecidableEq

/-- The glyphs at one position of a pattern, as written. -/
inductive GlyphSet where
  | glyph (name : String)
  | glyphs (names : List String)
  | marks (className : String)
  | nothing
deriving DecidableEq

/-- A class of marks: each of its definitions gives an anchor to some glyphs. -/
structure MarkClass where
  definitions : List (AnchorPoint × List String) := []
deriving DecidableEq

def MarkClass.glyphs (m : MarkClass) : List String := m.definitions.flatMap (·.2)

def GlyphSet.members (marks : List (String × MarkClass)) : GlyphSet → List String
  | .glyph n => [n]
  | .glyphs l => l
  | .marks c => ((marks.find? (·.1 == c)).map fun (_, m) => m.glyphs).getD []
  | .nothing => []

/-- What must stand before, at and after the glyphs that a rule acts on. -/
structure Context where
  before : List GlyphSet := []
  glyphs : List GlyphSet := []
  after : List GlyphSet := []

/-- A rule as written. A rule is `marked` if its target glyphs are marked in the pattern. -/
inductive RuleEntry where
  | single (context : Context) (replacement : GlyphSet) (marked : Bool)
  | multiple (context : Context) (replacement : List GlyphSet) (marked : Bool)
  | alternate (context : Context) (replacement : GlyphSet)
  | ligature (context : Context) (replacement : String)
  | reverse (context : Context) (replacement : GlyphSet)
  | chain (context : Context) (calls : List (Option (List String)))
  | ignore (contexts : List Context)
  | adjust (context : Context) (values : List (Option ValueRecord))
  | pair (first second : GlyphSet) (values : Option ValueRecord × Option ValueRecord) (each : Bool)
  | cursive (glyphs : GlyphSet) (entry exit : Option AnchorPoint)
  | attach (bases : GlyphSet) (marks : List (Option AnchorPoint × String))

/-- An entry of a feature file. A statement that has no counterpart among the rules of a
book is `foreign`; one that is of no consequence is left out. -/
inductive Entry where
  | rule (spot : Spot) (entry : RuleEntry)
  | lookup (spot : Spot) (name : String) (body : List Entry)
  | feature (name : String) (body : List Entry)
  | call (lookup : String)
  | script (tag : String)
  | language (tag : String)
  | flag (spot : Spot) (value : Int)
  | foreign

def RuleEntry.isPlain : RuleEntry → Bool
  | .single c _ marked | .multiple c _ marked => c.before.isEmpty && c.after.isEmpty && !marked
  | _ => false

/-- A single replacement serves for every glyph. -/
def spread (values : List String) (size : Nat) : List String :=
  match values with
  | [v] => List.replicate size v
  | l => l

/-- Of the rules of a block that substitute one glyph by one, or one by several, the last of
each kind decides whether the two are mixed; then each glyph of a rule of the first kind gets
a rule of the second kind. -/
def levelled (marks : List (String × MarkClass)) (body : List Entry) : List Entry :=
  let lastPlain (isKind : RuleEntry → Bool) : Bool :=
    match (body.filterMap fun | .rule _ r => if isKind r then some r else none | _ => none).getLast? with
    | some r => r.isPlain
    | none => false
  let each (spot : Spot) (c : Context) (replacement : GlyphSet) (marked : Bool) : List Entry :=
    let glyphs := (c.glyphs.headD .nothing).members marks
    (glyphs.zip (spread (replacement.members marks) glyphs.length)).map fun (g, r) =>
      .rule spot (.multiple { c with glyphs := [.glyph g] } [.glyph r] marked)
  if lastPlain (fun | .single .. => true | _ => false) && lastPlain (fun | .multiple .. => true | _ => false) then
    body.flatMap fun
      | .rule spot (.single c replacement marked) => each spot c replacement marked
      | e => [e]
  else body

end GlyphRules.Feature
