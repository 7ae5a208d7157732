import GlyphRules.Feature.RuleReader
import GlyphRules.Feature.TableReader

/-! Reading feature files.

A file is a list of definitions, lookups, features and tables. Lookups and
features are blocks of statements; a block ends with its name. -/
namespace GlyphRules.Feature
namespace Read

/-! ### Blocks -/

/-- What a block allows besides rules and settings. -/
structure BlockKind where
  vertical : Bool := false
  stylistic : Bool := false
  variant : Bool := false
  size : Bool := false

def countsUpTo (limit : Nat) : List Char → Bool
  | [a, b] => a.isDigit && b.isDigit &&
    (let n := 10 * (a.toNat - 48) + (b.toNat - 48); 1 ≤ n && n ≤ limit)
  | _ => false

def BlockKind.ofFeature (tag : String) : BlockKind :=
  { vertical := ["vkrn", "vpal", "vhal", "valt"].contains tag
    stylistic := Text.hasStart "ss" tag && countsUpTo 20 (tag.toList.drop 2)
    variant := Text.hasStart "cv" tag && countsUpTo 99 (tag.toList.drop 2)
    size := tag == "size" }

def closeBlock (name : String) : Read Unit := do
  let found ← expectName
  if found != name then refuse
  expectSymbol ';'

mutual
def lookup (vertical : Bool) : Nat → Read Entry
  | 0 => throw .unfinished
  | fuel + 1 => do
    let spot := (← get).spot
    let name ← expectName
    if ← aheadIs ";" then
      if !(← get).lookups.contains name then refuse
      expectSymbol ';'
      return .call name
    let _ ← accept "useExtension"
    let body ← block fuel { vertical } name
    modify fun s => { s with lookups := name :: s.lookups }
    return .lookup spot name body

def block : Nat → BlockKind → String → Read (List Entry)
  | 0, _, _ => throw .unfinished
  | fuel + 1, kind, name => do
    expectSymbol '\x7b'
    let outside ← get
    let body ← statements fuel kind
    expectSymbol '\x7d'
    modify fun s => { s with anchors := outside.anchors, values := outside.values }
    closeBlock name
    return levelled (← get).marks body

def statements : Nat → BlockKind → Read (List Entry)
  | 0, _ => throw .unfinished
  | fuel + 1, kind => do
    if ← aheadIs "\x7d" then return []
    advance
    let first ← statement fuel kind
    return first ++ (← statements fuel kind)

def statement : Nat → BlockKind → Read (List Entry)
  | 0, _ => throw .unfinished
  | fuel + 1, kind => do
    let spot := (← get).spot
    match (← get).current with
    | some (.glyphClass name) => classDefinition name; return []
    | some (.name "anchorDef") => anchorDefinition; return []
    | some (.name "enum") | some (.name "enumerate") =>
      advance
      if !(← ["position", "pos"].anyM currentIs) then throw .brokenPromise
      return [← position true kind.vertical]
    | some (.name "feature") =>
      let _ ← expectTag
      expectSymbol ';'
      return []
    | some (.name "ignore") => return [← ignore]
    | some (.name "language") => return [← language]
    | some (.name "lookup") => return [← lookup kind.vertical fuel]
    | some (.name "lookupflag") => return [← lookupFlag]
    | some (.name "markClass") => markDefinition; return []
    | some (.name "pos") | some (.name "position") => return [← position false kind.vertical]
    | some (.name "script") =>
      let tag ← expectScript
      expectSymbol ';'
      return [.script tag]
    | some (.name "sub") | some (.name "substitute") => return [.rule spot (← substitution false)]
    | some (.name "rsub") | some (.name "reversesub") => return [.rule spot (← substitution true)]
    | some (.name "subtable") => expectSymbol ';'; return [.foreign]
    | some (.name "valueRecordDef") => valueDefinition kind.vertical; return []
    | t =>
      if kind.stylistic && t == some (.name "featureNames") then
        featureNames
        return []
      if kind.variant && t == some (.name "cvParameters") then
        return if ← variantParameters then [.foreign] else []
      if kind.size && t == some (.name "parameters") then
        sizeParameters
        return [.foreign]
      if kind.size && t == some (.name "sizemenuname") then
        nameRecord
        return []
      if ← currentIs ";" then return []
      refuse
end

/-! ### Files -/

/-- The place after which an anonymous block is closed, as a cursor that starts at its end. -/
def closing (tag : String) : Cursor → Nat → Option Cursor
  | _, 0 => none
  | c, n + 1 =>
    match c.rest with
    | [] => none
    | ch :: cs =>
      let ends := ch == '\x7d' &&
        match Text.dropStart? tag.toList (cs.dropWhile Text.isBlank) with
        | some rest => (rest.dropWhile Text.isBlank).head? == some ';'
        | none => false
      if ends then some c else closing tag (c.past 1) n

/-- Data that is not for this reader, up to the end of its block. -/
def anonymous : Read Unit := do
  let tag ← expectTag
  let c := (← get).source
  let line := c.rest.takeWhile fun ch => ch != '\n' && ch != '\r'
  let breaks := (c.rest.drop line.length).takeWhile fun ch => ch == '\n' || ch == '\r'
  let body := c.past (line.length + breaks.length)
  match closing (Text.strip tag) body body.rest.length with
  | none => refuse
  | some source =>
    modify fun s => { s with source }
    advance
    expectSymbol '\x7d'
    let found ← expectTag
    if found != tag then throw .brokenPromise
    expectSymbol ';'

/-- One entry of a file, whose first word has been taken. -/
def topEntry : Read (List Entry) := do
  let fuel ← enough
  match (← get).current with
  | some (.glyphClass name) => classDefinition name; return []
  | some (.name "anon") | some (.name "anonymous") => anonymous; return []
  | some (.name "anchorDef") => anchorDefinition; return []
  | some (.name "languagesystem") =>
    let _ ← expectScript
    let _ ← expectLanguage
    expectSymbol ';'
    return []
  | some (.name "lookup") => return [← lookup false (2 * fuel)]
  | some (.name "markClass") => markDefinition; return []
  | some (.name "feature") =>
    let tag ← expectTag
    let _ ← accept "useExtension"
    return [.feature tag (← block (2 * fuel) (.ofFeature tag) (Text.strip tag))]
  | some (.name "conditionset") => conditionSet; return [.foreign]
  | some (.name "variation") =>
    let tag ← expectTag
    let condition ← expectName
    let _ ← accept "useExtension"
    let body ← block (2 * fuel) (.ofFeature tag) (Text.strip tag)
    return if condition == "NULL" then [.feature tag body] else [.foreign]
  | some (.name "table") => table
  | some (.name "valueRecordDef") => valueDefinition false; return []
  | some (.symbol ';') => return []
  | _ => refuse

def file : Read (List Entry) := do
  advance
  let entries ← untilDone (fun s => s.ahead.isNone) (do advance; topEntry) (← enough)
  if (← get).missing then refuse
  return entries.flatten

end Read

/-- What has been read: the entries, the glyph classes, and the mark classes. -/
structure Source where
  entries : List Entry := []
  classes : List (String × ClassEntry) := []
  marks : List (String × MarkClass) := []

/-- Read a feature file. Some classes may be defined beforehand; with a list of glyphs, only
those may be named. -/
def read (text : String) (glyphs : List String) (classes : List (String × List String)) :
    Except Fault Source := do
  let start : Reading :=
    { source := { rest := text.toList }, known := glyphs
      classes := classes.map fun (n, l) => (n, { glyphs := .glyphs l }) }
  let (entries, s) ← Read.file.run start
  return { entries, classes := s.classes, marks := s.marks }

end GlyphRules.Feature
