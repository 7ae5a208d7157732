import GlyphRules.Command.Workshop

/-! Class expressions.

A class is given by a selection, by a predicate on the glyphs of the font, or by two classes joined
with `&`, `|` or `-`, which bind alike and group to the left. What they give is a set, in the order
of names. -/
namespace GlyphRules.Command

inductive Predicate where
  /-- With every match of the pattern replaced, the name is that of a glyph. -/
  | hasGlyph (pattern : Except Fault Text.Regex) (new : Except Fault String)
  | hasAnchor (name : String)
  | category (name : String)
  | compare (metric : Metric) (relation : Relation) (value : Except Fault Int)
  | negated (p : Predicate)

inductive Conjunction where
  | both | any | less
deriving DecidableEq

inductive ClassExpression where
  | selection (s : Selection)
  | predicate (p : Predicate)
  | join (op : Conjunction) (left right : ClassExpression)

namespace Predicate

/-- The first trouble of a predicate, in reading order. -/
def check : Predicate → Except Fault Unit
  | hasGlyph pattern new => do
    let _ ← new
    let _ ← pattern
  | compare _ _ value => do let _ ← value
  | negated p => p.check
  | _ => .ok ()

def holds (book : Book) (font : Font) (g : Glyph) : Predicate → Bool
  | hasGlyph pattern new =>
    match pattern, new with
    | .ok p, .ok n => font.has (p.replaceAll n g.name)
    | _, _ => false
  | hasAnchor name => ((Dict.get? book.anchors g.name).map (Dict.has · name)).getD false
  | category name => g.category == some name
  | compare metric relation value =>
    match value with
    | .ok n => relation.holds (metric.of g) n
    | .error _ => false
  | negated p => !p.holds book font g

end Predicate

def Conjunction.apply (op : Conjunction) (left right : List String) : List String :=
  Text.sort <| Text.distinct <|
    match op with
    | both => left.filter right.contains
    | any => left ++ right
    | less => left.filter fun g => !right.contains g

namespace ClassExpression

def evaluate : ClassExpression → Craft (List String)
  | selection s => do Craft.resolve (← ofExcept (Phrase.usable s))
  | predicate p => do
    ofExcept p.check
    let w ← get
    return (w.font.glyphs.filter fun g => p.holds w.book w.font g).map (·.name)
  | join op left right => do
    let l ← left.evaluate
    let r ← right.evaluate
    return op.apply l r

end ClassExpression

namespace Phrase

/-- The name that takes the place of a match is a single character. -/
def hasGlyph : Phrase Predicate := do
  sign "hasglyph("
  let p ← pattern
  let new ← many (part fun
    | c :: _ => if isNamePart c then some 1 else none
    | [] => none)
  sign ")"
  match new with
  | [[c]] => pure (.hasGlyph (Text.Regex.read p) (.ok (String.singleton c)))
  | _ => pure (.hasGlyph (Text.Regex.read p) (.error .badValue))

def predicate (vars : Variables) : Phrase Predicate :=
  anyOf [
    hasGlyph,
    do sign "hasanchor("; let n ← name; sign ")"; pure (.hasAnchor n),
    do sign "category("; let n ← name; sign ")"; pure (.category n),
    do
      let m ← metric
      let r ← relation
      let v ← amount vars
      pure (.compare m r v)]

def conjunction : Phrase Conjunction := word [("&", .both), ("|", .any), ("-", .less)]

mutual
/-- A part of a class expression without operators, or with operators in parentheses. -/
def classPart (vars : Variables) : Nat → Phrase ClassExpression
  | 0 => nothing
  | fuel + 1 => either (classLeaf vars) do
    sign "("
    let e ← either (classLeaf vars) (classJoin vars fuel)
    sign ")"
    pure e

def classJoin (vars : Variables) : Nat → Phrase ClassExpression
  | 0 => nothing
  | fuel + 1 => do
    let first ← classPart vars fuel
    let more ← several do
      let op ← conjunction
      let e ← classPart vars fuel
      pure (op, e)
    pure (more.foldl (fun l (op, e) => .join op l e) first)

def classLeaf (vars : Variables) : Phrase ClassExpression :=
  anyOf [
    .selection <$> selection,
    .predicate <$> predicate vars,
    do sign "not"; let p ← predicate vars; pure (.predicate (.negated p))]
end

def classExpression (vars : Variables) : Phrase ClassExpression := fun r =>
  let fuel := 2 * r.chars.length + 2
  either (classPart vars fuel) (classJoin vars fuel) r

end Phrase

namespace Craft

def defineClass (text : String) : Craft Unit := do
  let (name, e) ← read (fun vs => do
    let name ← Phrase.className
    Phrase.sign "="
    let e ← Phrase.classExpression vs
    pure (name, e)) text
  setClass name (← e.evaluate)

/-- Define classes of glyphs with a similar measure; their names keep the sign. -/
def defineClassBinned (text : String) : Craft Unit := do
  let (name, metric, count, e) ← read (fun vs => do
    let name ← Phrase.className
    Phrase.sign "["
    let metric ← Phrase.word (Metric.named.map fun (n, m) => (n, (n, m)))
    Phrase.sign ","
    let count ← Phrase.unsignedText
    Phrase.sign "]"
    Phrase.sign "="
    let e ← Phrase.classExpression vs
    pure (name, metric, count, e)) text
  let glyphs ← e.evaluate
  let count := (← ofExcept (Number.read count)).toNat
  let bins ← ofExcept ((← get).font.bins glyphs metric.2 count)
  for i in List.range count do
    match bins[i]? with
    | some (members, _) => setClass ("@" ++ name ++ "_" ++ metric.1 ++ toString (i + 1)) members
    | none => throw .outOfRange

end Craft
end GlyphRules.Command
