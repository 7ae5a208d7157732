import GlyphRules.Book.Reference
import GlyphRules.Data
import GlyphRules.Layout.Table
import GlyphRules.Shaping.Session

/-! Fonts, rules, books, layout tables and characters from plain data.

The numbers of routines in the data count from the first routine of the same data, so a description
can be added to a book that already has routines. -/
namespace GlyphRules.Exchange

def readNumber (d : Data) : Number := d.asNumber?.getD 0

/-! ### Fonts -/

def readTwo {α : Type} (f : Data → α) (missing : α) (d : Data) : α × α :=
  match d.items with
  | [x, y] => (f x, f y)
  | _ => (missing, missing)

def readPoint : Data → Number × Number := readTwo readNumber 0

def readAnchor (d : Data) : Anchor :=
  match d.items with
  | [n, x, y] => ⟨n.asText, readNumber x, readNumber y⟩
  | _ => ⟨"", 0, 0⟩

def readBox (d : Data) : List Contour :=
  match d.items with
  | [x0, y0, x1, y1] =>
    let (x0, y0, x1, y1) := (readNumber x0, readNumber y0, readNumber x1, readNumber y1)
    [[(x0, y0), (x0, y1), (x1, y1), (x1, y0)]]
  | _ => []

def readGlyph (d : Data) : Glyph :=
  { name := (d.get "name").asText
    width := readNumber (d.get "width")
    unicodes := (d.get "unicodes").items.map Data.asNat
    category := (d.get "category").asText?
    exported := !d.has "exported" || (d.get "exported").asBool
    anchors := (d.get "anchors").items.map readAnchor
    contours := ((d.get "contours").items.map fun c => c.items.map readPoint) ++ readBox (d.get "box") }

def readFont (d : Data) : Font := ⟨d.items.map readGlyph⟩

/-! ### Rules -/

def readAxis (d : Data) : Axis :=
  match d.items with
  | [t, a, b, c] => ⟨t.asText, readNumber a, readNumber b, readNumber c⟩
  | _ => ⟨"", 0, 0, 0⟩

def readAxes (d : Data) : List Axis := d.items.map readAxis

def readLocation (d : Data) : Location := d.items.map fun p => let (k, v) := p.pair; (k, readNumber v)

def readVariable (axes : List Axis) (d : Data) : Except Fault VariableScalar :=
  d.items.foldlM (fun s p =>
    match p.items with
    | [l, v] => s.add (readLocation l) (readNumber v)
    | _ => .ok s) ⟨axes, []⟩

def readScalar (axes : List Axis) (d : Data) : Except Fault Scalar :=
  if d.has "var" then do return .varying (← readVariable axes (d.get "var"))
  else .ok (.fixed (readNumber d))

def readValue (axes : List Axis) (d : Data) : Except Fault (Option ValueRecord) :=
  if d.isNull then .ok none
  else do
    let part (key : String) : Except Fault (Option Scalar) :=
      if (d.get key).isNull then .ok none else do return some (← readScalar axes (d.get key))
    return some { xPlacement := ← part "xPlacement", yPlacement := ← part "yPlacement",
                  xAdvance := ← part "xAdvance", yAdvance := ← part "yAdvance",
                  vertical := (d.get "vertical").asBool }

def readSlots (d : Data) : Option (List Slot) :=
  d.optional fun d => d.items.map Data.texts

mutual
def readAddress : Data → Address
  | .number (.int n) => .number n
  | .text s => .text s
  | .list l => .list (readAddresses l)
  | _ => .none

def readAddresses : List Data → List Address
  | [] => []
  | d :: ds => readAddress d :: readAddresses ds
end

def readSystems (d : Data) : List LanguageSystem := d.items.map (readTwo Data.asText "")

def readFlags (d : Data) : Flags :=
  if !d.has "flags" then .bits 0
  else
    match d.get "flags" with
    | .number (.int n) => .bits n
    | .text s => .text s
    | _ => .unset

def readLookup (b : Book) (first : RoutineId) (d : Data) : Lookup :=
  match (d.get "ref").asInt? with
  | some i => .ref (Reference.make b none (some (first + i.toNat)))
  | none =>
    match (d.get "bare").asInt? with
    | some i => .bare (first + i.toNat)
    | none => .ref (Reference.make b (d.get "name").asText? none)

def readCalls (b : Book) (first : RoutineId) (d : Data) : Calls :=
  d.items.map (Data.optional fun s => s.items.map (readLookup b first))

/-- What a description of rules refers to. -/
structure Surroundings where
  axes : List Axis := []
  font : Option Font := none
  first : RoutineId := 0

def readPoints (axes : List Axis) (d : Data) : Except Fault (List (String × Point)) := do
  let points ← d.items.mapM fun p =>
    match p.items with
    | [g, x, y] => do return (g.asText, ((← readScalar axes x, ← readScalar axes y) : Point))
    | _ => .error .badValue
  return Dict.merge [] points

def readRule (s : Surroundings) (b : Book) (d : Data) : Except Fault Rule := do
  let before := (readSlots (d.get "pre")).getD []
  let after := (readSlots (d.get "post")).getD []
  let body ← match (d.get "type").asText with
    | "sub" => pure (RuleBody.substitution
        { input := readSlots (d.get "input"), replacement := readSlots (d.get "replacement"), before, after
          calls := readCalls b s.first (d.get "lookups")
          reversal := if (d.get "reverse").asBool then .backward else .forward
          alternate := (d.get "force_alt").asBool })
    | "pos" => do
      let glyphs := (readSlots (d.get "glyphs")).getD []
      let values ← (d.get "values").items.mapM (readValue s.axes)
      if glyphs.length != values.length then throw .brokenPromise
      pure (.positioning { glyphs, values, before, after })
    | "chain" => pure (.chaining
        { input := readSlots (d.get "input"), before, after, calls := readCalls b s.first (d.get "lookups") })
    | _ => do
      pure (.attachment
        { baseName := (d.get "base_name").asText?, markName := (d.get "mark_name").asText?
          bases := ← readPoints s.axes (d.get "bases"), marks := ← readPoints s.axes (d.get "marks")
          markToMark := (d.get "force_markmark").asBool
          font := if (d.get "font").asBool then s.font else none })
  let languages := (d.get "languages").optional (Languages.pairs <| readSystems ·)
  return { body, flags := readFlags d, address := readAddress (d.get "address")
           languages := match body with
             | .attachment _ => some (languages.getD (.pairs []))
             | _ => languages }

/-! ### Books -/

def readRoutine (first : RoutineId) (d : Data) : Routine :=
  { name := if d.has "name" then (d.get "name").asText? else some ""
    content := if d.has "extension" then
        .extension ((d.get "extension").items.map fun i => first + i.asNat)
      else .rules []
    flags := readFlags d
    languages := .pairs (readSystems (d.get "languages"))
    markFilteringSet := (d.get "markFilteringSet").optional Data.texts
    markAttachmentSet := (d.get "markAttachmentSet").optional Data.texts
    comments := (d.get "comments").texts
    address := readAddress (d.get "address") }

def readPool (s : Surroundings) (pool : Data) : Act Unit := do
  for d in pool.items do
    modify fun b => (b.addRoutine (readRoutine s.first d)).2
  for (d, i) in pool.items.zipIdx do
    for r in (d.get "rules").items do
      let rule ← ofExcept (readRule s (← get) r)
      modify fun b => b.appendRule (s.first + i) rule

/-- A list of feature calls: routines by number, or references. -/
def readItems (b : Book) (first : RoutineId) (d : Data) : List Lookup :=
  d.items.map fun i =>
    match i.asInt? with
    | some n => .bare (first + n.toNat)
    | none => readLookup b first i

def readBook (s : Surroundings) (d : Data) : Act Unit := do
  let s := { s with axes := readAxes (d.get "axes"), first := (← get).routines.size }
  readPool s (d.get "pool")
  let anchors ← (d.get "anchors").items.mapM fun p => do
    let (g, points) := p.pair
    return (g, ← ofExcept (readPoints s.axes points))
  modify fun b => { b with
    namedClasses := Dict.merge b.namedClasses ((d.get "namedClasses").pairs.map fun (k, v) => (k, v.texts))
    glyphClasses := Dict.merge b.glyphClasses ((d.get "glyphclasses").pairs.map fun (k, v) => (k, v.asText?))
    anchors := Dict.merge b.anchors anchors
    order := b.order ++ (d.get "routines").items.map fun i => s.first + i.asNat }
  for p in (d.get "features").items do
    let (tag, items) := p.pair
    modify fun b => b.addFeature tag (readItems b s.first items)

/-! ### Layout tables -/

section
open Layout

def readIndices (d : Data) : List Nat := d.items.map Data.asNat

def readNamed {α : Type} (f : Data → α) (d : Data) : List (String × α) := d.pairs.map fun (k, v) => (k, f v)

def readGlyphLists (d : Data) : List (List String) := d.items.map Data.texts

def readPairIndices (d : Data) : List (Nat × Nat) := d.items.map (readTwo Data.asNat 0)

def readClassMap? (d : Data) : Option ClassMap :=
  d.optional (readNamed Data.asNat)

/-- What stands around a rule is there only in a chained one. -/
def readContextRule {α : Type} (chained : Bool) (f : Data → α) (d : Data) : ContextRule α :=
  let list (key : String) := (d.get key).items.map f
  let around (key : String) := if chained then list key else []
  { input := list "input", before := around "backtrack", after := around "lookahead"
    calls := readPairIndices (d.get "lookups") }

def readRuleSets {α : Type} (chained : Bool) (f : Data → α) (d : Data) : List (Option (List (ContextRule α))) :=
  d.items.map (Data.optional fun s => s.items.map (readContextRule chained f))

def readContext (chained : Bool) (d : Data) : Context :=
  let coverage := (d.get "coverage").texts
  let ruleSets := d.get "rulesets"
  let around {α : Type} (none_ : α) (a : α) : α := if chained then a else none_
  match (d.get "format").asInt with
  | 1 => .glyphs coverage (readRuleSets chained Data.asText ruleSets)
  | 2 => .classes coverage (readClassMap? (d.get "classes")) (around none (readClassMap? (d.get "backtrack_classes")))
      (around none (readClassMap? (d.get "lookahead_classes")))
      (readRuleSets chained Data.asNat ruleSets)
  | 3 => .coverage (readGlyphLists (d.get "input")) (around [] (readGlyphLists (d.get "backtrack")))
      (around [] (readGlyphLists (d.get "lookahead"))) (readPairIndices (d.get "lookups"))
  | _ => .unknown

def readTableValue (d : Data) : ValueRecord :=
  let part (key : String) : Option Scalar := some (.fixed (readNumber (d.get key)))
  { xPlacement := part "XPlacement", yPlacement := part "YPlacement", xAdvance := part "XAdvance"
    yAdvance := part "YAdvance" }

def readMarks (d : Data) : Subtable :=
  .marks (d.get "markcoverage").texts (d.get "basecoverage").texts (d.get "classcount").asNat
    ((d.get "marks").items.map fun m =>
      match m.items with
      | [c, x, y] => (c.asNat, readNumber x, readNumber y)
      | _ => (0, 0, 0))
    ((d.get "bases").items.map fun b => b.items.map (Data.optional readPoint))

def readSubtable (kind : TableKind) : Nat → Int → Data → Subtable
  | depth, type, d =>
    let coverage := (d.get "coverage").texts
    match kind, type with
    | .substitution, 1 => .single (readNamed Data.asText (d.get "mapping"))
    | .substitution, 2 => .multiple (readNamed Data.texts (d.get "mapping"))
    | .substitution, 3 => .alternate (readNamed Data.texts (d.get "alternates"))
    | .substitution, 4 => .ligature (readNamed (fun l => l.items.map fun p =>
        match p.items with
        | [rest, g] => (rest.texts, g.asText)
        | _ => ([], "")) (d.get "ligatures"))
    | .substitution, 5 | .positioning, 7 => .context (readContext false d)
    | .substitution, 6 | .positioning, 8 => .context (readContext true d)
    | .substitution, 8 => .reverse coverage (d.get "substitute").texts (readGlyphLists (d.get "backtrack"))
        (readGlyphLists (d.get "lookahead"))
    | .positioning, 1 =>
      if (d.get "format").asInt == 1 then .value coverage (readTableValue (d.get "value"))
      else .values coverage ((d.get "values").items.map readTableValue)
    | .positioning, 2 =>
      let two := readTwo readTableValue {}
      if (d.get "format").asInt == 1 then
        .pairs coverage ((d.get "pairsets").items.map fun s => s.items.map fun p =>
          ((p.items.headD .null).asText, two (.list (p.items.drop 1))))
      else
        .classPairs coverage ((readClassMap? (d.get "class1")).getD []) ((readClassMap? (d.get "class2")).getD [])
          ((d.get "records").items.map fun row => row.items.map two)
    | .positioning, 3 => .cursive coverage ((d.get "records").items.map (readTwo (Data.optional readPoint) none))
    | .positioning, 4 | .positioning, 6 => readMarks d
    | .substitution, 7 | .positioning, 9 =>
      match depth with
      | 0 => .nothing
      | depth + 1 => .extension (d.get "type").asInt (readSubtable kind depth (d.get "type").asInt (d.get "sub"))
    | _, _ => .nothing

def readLookupTable (kind : TableKind) (d : Data) : LookupTable :=
  let type := (d.get "type").asInt
  { type, flags := (d.get "flag").asInt, filter := (d.get "mfs").asInt?.map Int.toNat
    subtables := (d.get "subtables").items.map (readSubtable kind 4 type) }

def readScriptTable (d : Data) : ScriptTable :=
  match d.items with
  | [tag, default, languages] =>
    { tag := tag.asText, default := default.optional readIndices
      languages := readNamed readIndices languages }
  | _ => { tag := "" }

def readLayoutTable? (kind : TableKind) (d : Data) : Option LayoutTable :=
  d.optional fun d => {
    scripts := (d.get "scripts").optional (·.items.map readScriptTable)
    features := readNamed readIndices (d.get "features")
    lookups := (d.get "lookups").optional (·.items.map (readLookupTable kind)) }

def readGlyphTable? (d : Data) : Option GlyphTable :=
  d.optional fun d => {
    categories := (d.get "classes").optional (readNamed Data.asInt)
    attachment := readClassMap? (d.get "markattach")
    filters := (d.get "markglyphsets").optional readGlyphLists }

def originsKey : String := "com.github.fonttools.feaLib"

def readOrigins? (d : Data) : Option Origins :=
  if (d.get "debg").isNull then none
  else if d.has "debg_key" && (d.get "debg_key").asText != originsKey then none
  else some (readNamed (fun l => l.items.map fun p =>
    match p.items with
    | [i, info] =>
      (i.asNat, readAddress (info.items.headD .null), ((info.items.drop 1).headD .null).asText?)
    | _ => (0, .none, none)) (d.get "debg"))

def readFontTables (d : Data) : FontTables :=
  { glyphs := (d.get "glyphs").texts
    substitution := readLayoutTable? .substitution (d.get "GSUB")
    positioning := readLayoutTable? .positioning (d.get "GPOS")
    definitions := readGlyphTable? (d.get "GDEF")
    origins := readOrigins? d }

def readNames (d : Data) : List (String × String) := Dict.merge [] (readNamed Data.asText d)

/-- A rule with the glyphs of its slots in order; what a substitution replaces keeps its order. -/
def sortSlots (r : Rule) : Rule :=
  let sorted (l : List Slot) : List Slot := l.map Text.sort
  { r with body := match r.body with
    | .substitution s => .substitution { s with before := sorted s.before, after := sorted s.after }
    | .positioning p => .positioning
        { p with glyphs := sorted p.glyphs, before := sorted p.before, after := sorted p.after }
    | .chaining c => .chaining
        { c with input := c.input.map sorted, before := sorted c.before, after := sorted c.after }
    | .attachment a => .attachment a }

end

/-! ### Characters -/

section
open Shaping

def readCharacters (d : Data) : Characters :=
  { entries := d.items.map fun p =>
      match p.items with
      | [code, .record fields] => (code.asNat, fields.map fun (k, v) => (k, v.asText))
      | [code, _] => (code.asNat, [])
      | _ => (0, []) }

def readCodes (d : Data) : List Nat :=
  match d with
  | .text s => s.toList.map Char.toNat
  | d => d.items.map Data.asNat

def readWriteOptions (d : Data) : WriteOptions :=
  { position := !d.has "position" || (d.get "position").asBool
    names := !d.has "names" || (d.get "names").asBool
    ned := (d.get "ned").asBool
    additional := match d.get "additional" with
      | .text "" => []
      | .text s => [s]
      | l => l.texts }

end
end GlyphRules.Exchange
