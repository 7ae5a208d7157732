import GlyphRules.Feature.Reading

/-! Reading rules and settings.

A rule starts with a pattern: glyphs in a row, of which some may be marked as the
target. What stands before and after the target is its context. -/
namespace GlyphRules.Feature.Read

/-! ### Rules -/

/-- A pattern: the context, what is called at each target glyph, the values, and whether
glyphs are marked. -/
structure Pattern where
  context : Context := {}
  calls : List (Option (List String)) := []
  values : List (Option ValueRecord) := []
  marked : Bool := false

def isValue (v : Option ValueRecord) : Bool :=
  match v with
  | some v => v.isSet
  | none => false

def patternStep (vertical : Bool) (p : Pattern) : Read Pattern := do
  let g ← glyphOrClass
  let isMarked ← aheadIs "'"
  if isMarked then
    expectSymbol '\''
    if !p.context.after.isEmpty then refuse
  let c := p.context
  let context :=
    if isMarked then { c with glyphs := c.glyphs ++ [g] }
    else if c.glyphs.isEmpty then { c with before := c.before ++ [g] }
    else { c with after := c.after ++ [g] }
  let hasValue := match (← get).ahead with
    | some (.number _) => true
    | some t => t.word == some "<" || t.word == some "("
    | none => false
  let value ← if hasValue then some <$> valueRecord vertical else pure none
  let calls ← whileAhead "lookup" do
    expectKeyword "lookup"
    if !isMarked then refuse
    let name ← expectName
    if !(← get).lookups.contains name then refuse
    return name
  return { context, values := p.values ++ [value], marked := p.marked || isMarked,
           calls := if isMarked then p.calls ++ [if calls.isEmpty then none else some calls] else p.calls }

def patternSteps (vertical : Bool) : Nat → Pattern → Read Pattern
  | 0, _ => throw .unfinished
  | n + 1, p => do
    if stopsAt ["by", "from", ";", ","] (← get) then return p
    patternSteps vertical n (← patternStep vertical p)

/-- A whole pattern. Values belong to the marked glyphs; one that follows the last glyph may
belong to the only marked one. -/
def pattern (vertical : Bool) : Read Pattern := do
  let p ← patternSteps vertical (← enough) {}
  let c := p.context
  if c.glyphs.isEmpty && c.after.isEmpty then
    return { p with context := { glyphs := c.before }, calls := c.before.map fun _ => none }
  if (p.values.take c.before.length).any isValue then refuse
  let inside := (p.values.drop c.before.length).take c.glyphs.length
  if inside.any isValue then
    if (p.values.drop (c.before.length + c.glyphs.length)).any isValue then refuse
    return { p with values := inside }
  match p.values.getLast? with
  | some v =>
    if isValue v then
      if c.glyphs.length > 1 || p.values.dropLast.any isValue then refuse
      return { p with values := [v] }
  | none => pure ()
  if p.values.any isValue then refuse
  return p

/-- What is put in place of the pattern: a list, which may be empty or unsaid, or a choice. -/
inductive Outcome where
  | replaced (sets : List GlyphSet)
  | chosen (among : GlyphSet)

def outcome : Read Outcome := do
  if ← accept "by" then return .replaced (← upTo [";"] replacement)
  else if ← accept "from" then return .chosen (← glyphClass)
  else return .replaced []

/-- Classes on both sides have the same size, unless all glyphs become one. -/
def sameSize (old new : GlyphSet) : Read Bool := do
  let a ← membersOf old
  let b ← membersOf new
  return b.length == 1 || a.length == b.length

def substitution (reverse : Bool) : Read RuleEntry := do
  let p ← pattern false
  let c := p.context
  if p.values.any isValue then refuse
  let said ← outcome
  expectSymbol ';'
  let hasCalls := p.calls.any (·.isSome)
  match said with
  | .chosen among =>
    match c.glyphs with
    | [g] =>
      if reverse || (← membersOf g).length != 1 then refuse
      return .alternate c among
    | _ => refuse
  | .replaced [] =>
    if !hasCalls || reverse then refuse
    return .chain c p.calls
  | .replaced new =>
    if hasCalls then refuse
    match reverse, c.glyphs, new with
    | true, [g], [n] =>
      if n == .nothing || !(← sameSize g n) then refuse
      return .reverse c n
    | true, _, _ => refuse
    | false, [_], [.nothing] => return .multiple c [] p.marked
    | false, [g], [n] =>
      if !(← sameSize g n) then refuse
      return .single c n p.marked
    | false, [g], _ =>
      let size := (← membersOf g).length
      for n in new do
        let k := (← membersOf n).length
        if k == 0 || (k != 1 && k != size) then refuse
      return .multiple c new p.marked
    | false, _ :: _ :: _, [n] =>
      match ← membersOf n with
      | [glyph] => return .ligature c glyph
      | _ => refuse
    | false, _, _ => refuse

def position (each vertical : Bool) : Read Entry := do
  let spot := (← get).spot
  let special (word : String) : Read Bool := do
    let found ← accept word
    if found && each then refuse
    return found
  if ← special "cursive" then
    let g ← glyphOrClass
    let entry ← anchor
    let exit ← anchor
    expectSymbol ';'
    return .rule spot (.cursive g entry exit)
  if ← special "base" <||> special "mark" then
    let g ← glyphOrClass
    let marks ← anchorMarks
    expectSymbol ';'
    return .rule spot (.attach g marks)
  if ← special "ligature" then
    let _ ← glyphOrClass
    let _ ← anchorMarks
    let _ ← whileAhead "ligComponent" do
      expectKeyword "ligComponent"
      anchorMarks
    expectSymbol ';'
    return .foreign
  let p ← pattern vertical
  let c := p.context
  expectSymbol ';'
  if p.calls.any (·.isSome) then
    if p.values.any isValue then refuse
    return .rule spot (.chain c p.calls)
  match c.before, c.glyphs, c.after, p.values, p.marked with
  | [], [a, b], [], [v, w], false =>
    return .rule spot (.pair a b (if v.isNone then (w, v) else (v, w)) each)
  | _, _, _, _, _ =>
    if each then refuse
    return .rule spot (.adjust c p.values)

/-- One context of an `ignore` statement; without a mark the first glyph is the target. -/
def ignored : Read Context := do
  let p ← pattern false
  if p.calls.any (·.isSome) then refuse
  if p.marked then return p.context
  return { p.context with glyphs := p.context.glyphs.take 1, after := p.context.glyphs.drop 1 }

def ignore : Read Entry := do
  let spot := (← get).spot
  advance
  let words ← ["substitute", "sub", "position", "pos"].anyM currentIs
  if !words then refuse
  let first ← ignored
  let more ← whileAhead "," (do expectSymbol ','; ignored)
  expectSymbol ';'
  return .rule spot (.ignore (first :: more))

/-! ### Settings -/

def flagNames : List (String × Nat) :=
  [("RightToLeft", 1), ("IgnoreBaseGlyphs", 2), ("IgnoreLigatures", 4), ("IgnoreMarks", 8)]

def flagWord (seen : List (Option String × Nat)) : Read (Option String × Nat) := do
  let word := (← get).ahead.bind Token.word
  if seen.any (·.1 == word) then refuse
  match word with
  | some "MarkAttachmentType" | some "UseMarkFilteringSet" =>
    let _ ← expectName
    let _ ← glyphClass
    return (word, 0)
  | some w =>
    match Dict.get? flagNames w with
    | some bits =>
      let _ ← expectName
      return (word, bits)
    | none => refuse
  | none => refuse

def flagWords : Nat → List (Option String × Nat) → Read (List (Option String × Nat))
  | 0, _ => throw .unfinished
  | n + 1, seen => do
    if stopsAt [";"] (← get) then return seen
    flagWords n (seen ++ [← flagWord seen])

def lookupFlag : Read Entry := do
  let spot := (← get).spot
  if let some (.number n) := (← get).ahead then
    advance
    expectSymbol ';'
    return .flag spot n
  let words ← flagWords (← enough) []
  expectSymbol ';'
  if words.isEmpty then refuse
  return .flag spot (words.foldl (fun bits (_, b) => bits ||| b) 0 : Nat)

def language : Read Entry := do
  let tag ← expectLanguage
  if ← ["exclude_dflt", "include_dflt"].anyM aheadIs then
    let _ ← expectName
  let _ ← accept "required"
  expectSymbol ';'
  return .language tag

end GlyphRules.Feature.Read
