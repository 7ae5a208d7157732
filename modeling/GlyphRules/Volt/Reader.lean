import GlyphRules.Volt.Token
import GlyphRules.Volt.Project
import GlyphRules.Number.Reader

/-! Reading a VOLT project.

The reader sees one token ahead. A character that belongs to no token is found when the token
before it is taken. Where the form of a statement is taken for granted a wrong word is a broken
promise; everywhere else the project is unreadable. -/
namespace GlyphRules.Volt

structure Tape where
  /-- The token that was taken last. -/
  current : Option Token := none
  rest : List Token
  /-- Whether the tokens end in something that is none. -/
  broken : Bool
  /-- The entries read so far. -/
  entries : Project := []

abbrev Read := StateT Tape (Except Fault)

namespace Read

def refuse {α : Type} : Read α := throw .unreadableProject

/-- Look at the next token without taking it: its text. -/
def ahead? : Read (Option String) := return (← get).rest.head?.bind Token.word?

/-- Whether the next token, quoted or not, has this text. -/
def aheadIs (word : String) : Read Bool := return (← ahead?) == some word

def advance : Read Unit := do
  let t ← get
  match t.rest with
  | [] => set { t with current := none }
  | c :: rest =>
    if rest.isEmpty && t.broken then refuse
    set { t with current := some c, rest }

/-- Whether the token that was taken last is this name. -/
def isAt (word : String) : Read Bool := return (← get).current == some (.name word)

def promise (word : String) : Read Unit := do
  unless ← isAt word do throw .brokenPromise

def keyword (word : String) : Read Unit := do
  advance
  unless ← isAt word do refuse

def expect {α : Type} (pick : Token → Option α) : Read α := do
  advance
  match (← get).current.bind pick with
  | some a => return a
  | none => refuse

def name : Read String := expect fun | .name w => some w | _ => none

def text : Read String := expect fun | .quoted t => some t | _ => none

def number : Read Int := expect fun | .number n => some n | _ => none

/-- Take the next token if it has this text. -/
def takeIf (word : String) : Read Bool := do
  let found ← aheadIs word
  if found then advance
  return found

def after? {α : Type} (word : String) (body : Read α) : Read (Option α) := do
  if ← aheadIs word then
    keyword word
    return some (← body)
  else return none

/-- Read one after the other as long as a test of what is ahead holds. Every one takes a token. -/
def whileAhead {α : Type} (more : Option String → Bool) (body : Read α) : Read (List α) := do
  go ((← get).rest.length + 1)
where
  go : Nat → Read (List α)
    | 0 => throw .unfinished
    | fuel + 1 => do
      if more (← ahead?) then
        let a ← body
        return a :: (← go fuel)
      else return []

def untilAhead {α : Type} (word : String) (body : Read α) : Read (List α) :=
  whileAhead (· != some word) body

end Read

open Read

/-! ### Coverages and positions -/

def itemWords : List String := ["GLYPH", "GROUP", "RANGE", "ENUM"]

mutual
def readItems : Nat → Read Coverage
  | 0 => throw .unfinished
  | fuel + 1 => do
    if ((← ahead?).map itemWords.contains).getD false then
      let item ← readItem fuel
      return item :: (← readItems fuel)
    else return []

def readItem : Nat → Read Item
  | 0 => throw .unfinished
  | fuel + 1 => do
    match ← name with
    | "GLYPH" => return .glyph (← text)
    | "GROUP" => return .group (← text)
    | "RANGE" =>
      let first ← text
      keyword "TO"
      return .range first (← text)
    | _ =>
      let items ← readItems fuel
      keyword "END_ENUM"
      return .list items
end

/-- A coverage: glyphs, groups, ranges and lists of such. -/
def readCoverage : Read Coverage := do readItems (2 * (← get).rest.length + 2)

def readCorrections : Read Unit := do
  let _ ← whileAhead (· == some "ADJUST_BY") do
    advance
    promise "ADJUST_BY"
    let _ ← number
    keyword "AT"
    let _ ← number

def readPart (word : String) : Read (Option Int) := do
  if ← takeIf word then
    let n ← number
    readCorrections
    return some n
  else return none

def readPosition : Read (Int × Int) := do
  advance
  promise "POS"
  let _ ← readPart "ADV"
  let x ← readPart "DX"
  let y ← readPart "DY"
  keyword "END_POS"
  return (x.getD 0, y.getD 0)

/-! ### Glyphs, groups and anchors -/

/-- Code points in hexadecimal, each after two characters, with commas between them. -/
def checkCodes (list : String) : Read Unit :=
  for part in Text.split ',' list do
    if part != "" && (Number.read? 16 (String.ofList (part.toList.drop 2))).isNone then refuse

def readGlyph : Read Entry := do
  promise "DEF_GLYPH"
  let glyph ← text
  keyword "ID"
  let id ← number
  if id < 0 then refuse
  if ← aheadIs "UNICODE" then
    keyword "UNICODE"
    if (← number) < 0 then refuse
  else if ← aheadIs "UNICODEVALUES" then
    keyword "UNICODEVALUES"
    checkCodes (← text)
  let kind ← after? "TYPE" do
    (GlyphKind.ofWord? (← name)).elim (throw .brokenPromise) pure
  let components ← after? "COMPONENTS" number
  keyword "END_GLYPH"
  return .glyph { name := glyph, id := id.toNat, kind, components }

def readGroup : Read Entry := do
  promise "DEF_GROUP"
  let group ← text
  let members ← after? "ENUM" do
    let items ← readCoverage
    keyword "END_ENUM"
    return items
  keyword "END_GROUP"
  if (← get).entries.hasGroup group then refuse
  return .group { name := group, members }

def readAnchor : Read Entry := do
  promise "DEF_ANCHOR"
  let anchor ← text
  keyword "ON"
  let _ ← number
  keyword "GLYPH"
  let glyph ← name
  keyword "COMPONENT"
  let component ← number
  if (← get).entries.hasAnchor glyph anchor component then refuse
  let _ ← takeIf "LOCKED"
  keyword "AT"
  let (x, y) ← readPosition
  keyword "END_ANCHOR"
  return .anchor { name := anchor, glyph, component, x, y }

/-! ### Scripts -/

def readFeature : Read FeatureEntry := do
  advance
  promise "DEF_FEATURE"
  keyword "NAME"
  let _ ← text
  keyword "TAG"
  let tag ← text
  let lookups ← untilAhead "END_FEATURE" do
    keyword "LOOKUP"
    text
  keyword "END_FEATURE"
  return { tag, lookups }

def readLanguage : Read LanguageEntry := do
  advance
  promise "DEF_LANGSYS"
  let _ ← after? "NAME" text
  keyword "TAG"
  let tag ← text
  let features ← untilAhead "END_LANGSYS" readFeature
  keyword "END_LANGSYS"
  return { tag, features }

def readLanguages : Nat → List LanguageEntry → Read (List LanguageEntry)
  | 0, _ => throw .unfinished
  | fuel + 1, before => do
    if ← aheadIs "END_SCRIPT" then return before
    let l ← readLanguage
    if before.any (·.tag == l.tag) then refuse
    readLanguages fuel (before ++ [l])

def readScript : Read Entry := do
  promise "DEF_SCRIPT"
  let _ ← after? "NAME" text
  keyword "TAG"
  let tag ← text
  if (← get).entries.hasScript tag then refuse
  let languages ← readLanguages ((← get).rest.length + 1) []
  keyword "END_SCRIPT"
  return .script { tag, languages }

/-! ### Lookups -/

def readMarks : Read MarkUse := do
  if ← takeIf "PROCESS_MARKS" then
    if ← takeIf "MARK_GLYPH_SET" then return .filtered (← text)
    if ← takeIf "ALL" then return .all
    if ← takeIf "NONE" then return .skipped
    let group ← text
    return if group.isEmpty then .skipped else .attached group
  else if ← takeIf "SKIP_MARKS" then return .skipped
  else return .all

def readSide : Read (Bool × Coverage) := do
  let side ← name
  return (side == "LEFT", ← readCoverage)

def readContext : Read (Option Context) := do
  let word ← name
  if ← aheadIs "END_CONTEXT" then
    keyword "END_CONTEXT"
    return none
  let sides ← whileAhead (fun w => w == some "LEFT" || w == some "RIGHT") readSide
  keyword "END_CONTEXT"
  let part (left : Bool) : List Coverage := (sides.filter (·.1 == left)).map (·.2)
  return some { excluded := word == "EXCEPT_CONTEXT", left := part true, right := part false }

def greatest (l : List Coverage) : Nat := l.foldl (fun m c => Nat.max m c.length) 0

def readSubstitution (reversed : Bool) : Read Action := do
  unless ← aheadIs "SUB" do refuse
  let pairs ← whileAhead (· == some "SUB") do
    keyword "SUB"
    let source ← readCoverage
    keyword "WITH"
    let target ← readCoverage
    keyword "END_SUB"
    return (source, target)
  keyword "END_SUBSTITUTION"
  let sources := greatest (pairs.map (·.1))
  let targets := greatest (pairs.map (·.2))
  if sources > 1 && targets > 1 then refuse
  if reversed && (sources > 1 || targets > 1) then refuse
  if sources == 0 || targets == 0 then throw .unsetName
  return .substitution pairs

def readPositioning : Read Action := do
  match ← name with
  | "ATTACH" =>
    let _ ← readCoverage
    keyword "TO"
    let _ ← untilAhead "END_ATTACH" do
      let _ ← readCoverage
      keyword "AT"
      keyword "ANCHOR"
      text
    keyword "END_ATTACH"
  | "ATTACH_CURSIVE" =>
    let _ ← untilAhead "ENTER" do
      keyword "EXIT"
      readCoverage
    let _ ← untilAhead "END_ATTACH" do
      keyword "ENTER"
      readCoverage
    keyword "END_ATTACH"
  | "ADJUST_PAIR" =>
    for side in ["FIRST", "SECOND"] do
      let _ ← whileAhead (· == some side) do
        advance
        readCoverage
    let _ ← untilAhead "END_ADJUST" do
      let _ ← number
      let _ ← number
      keyword "BY"
      let _ ← readPosition
      readPosition
    keyword "END_ADJUST"
  | "ADJUST_SINGLE" =>
    let _ ← untilAhead "END_ADJUST" do
      let _ ← readCoverage
      keyword "BY"
      readPosition
    keyword "END_ADJUST"
  | _ => refuse
  keyword "END_POSITION"
  return .positioning

def readLookup : Read Entry := do
  promise "DEF_LOOKUP"
  let lookup ← text
  match lookup.toList with
  | [] => throw .outOfRange
  | c :: _ => unless Text.isLetter c do refuse
  if (← get).entries.hasLookup lookup then refuse
  let processed ← takeIf "PROCESS_BASE"
  let skipBases ← if processed then pure false else takeIf "SKIP_BASE"
  let marks ← readMarks
  let rightToLeft ← after? "DIRECTION" do
    match ← name with
    | "RTL" => return true
    | "LTR" => return false
    | _ => throw .brokenPromise
  let reversed ← after? "REVERSAL" (pure ())
  let _ ← after? "COMMENTS" text
  let contexts ← whileAhead (fun w => w == some "EXCEPT_CONTEXT" || w == some "IN_CONTEXT") readContext
  let action ← match ← name with
    | "AS_SUBSTITUTION" => readSubstitution reversed.isSome
    | "AS_POSITION" => readPositioning
    | _ => refuse
  return .lookup
    { name := lookup, skipBases, marks, rightToLeft := rightToLeft.getD false,
      contexts := contexts.filterMap id, action }

/-! ### The whole project -/

/-- A statement, from the text of its first token on. -/
def readEntry (word : String) : Read Entry := do
  match word with
  | "DEF_GLYPH" => readGlyph
  | "DEF_GROUP" => readGroup
  | "DEF_SCRIPT" => readScript
  | "DEF_LOOKUP" => readLookup
  | "DEF_ANCHOR" => readAnchor
  | "GRID_PPEM" | "PRESENTATION_PPEM" | "PPOSITIONING_PPEM" =>
    let _ ← number
    return .setting word
  | "COMPILER_USEEXTENSIONLOOKUPS" | "COMPILER_USEPAIRPOSFORMAT2" | "DO_NOT_TOUCH_CMAP" => return .setting word
  | "CMAP_FORMAT" =>
    let _ ← number
    let _ ← number
    let _ ← number
    return .setting word
  | _ => refuse

/-- The statements up to the closing word or the end. -/
def readEntries : Nat → Read Unit
  | 0 => throw .unfinished
  | fuel + 1 => do
    if (← get).rest.isEmpty then return
    advance
    if (← get).current == some Token.finish then return
    match (← get).current.bind Token.word? with
    | none => refuse
    | some word =>
      let e ← readEntry word
      modify fun t => { t with entries := t.entries ++ [e] }
      readEntries fuel

def Project.parse (source : String) : Except Fault Project := do
  let (tokens, broken) := Token.ofText source
  if tokens.isEmpty && broken then throw .unreadableProject
  let (_, t) ← (readEntries (tokens.length + 1)).run { rest := tokens, broken }
  return t.entries

end GlyphRules.Volt
