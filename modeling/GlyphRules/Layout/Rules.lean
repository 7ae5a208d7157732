import GlyphRules.Layout.Table
import GlyphRules.Book.Reference

/-! Rules from layout tables.

Each lookup becomes a routine, whose name says its type and counts the names made so far. All
routines are known before the first is filled, so that contexts can call later lookups. -/
namespace GlyphRules.Layout

structure Setting where
  kind : TableKind
  tables : FontTables
  /-- New names for routines; none if there is nothing that could be asked for them. -/
  names : Option (List (String × String))
  /-- The routine of the first lookup, and the number of lookups. -/
  first : RoutineId
  count : Nat

abbrev Reading := StateT Nat (Except Fault)

namespace Reading

def fresh : Reading String := do
  let n := (← get) + 1
  set n
  return toString n

end Reading

def routineName (s : Setting) (label : String) : Reading (Option String) := do
  let name := label ++ (← Reading.fresh)
  match s.names with
  | some names => return some ((Dict.get? names name).getD name)
  | none => throw .missingPart

/-! ### Flags -/

def attachmentMarks (t : FontTables) (number : Nat) : Except Fault (List String) :=
  match t.definitions with
  | none => .error .notFound
  | some d =>
    match d.attachment with
    | none => .error .missingPart
    | some classes => .ok (((Dict.merge [] classes).filter (·.2 == number)).map (·.1))

def filterMarks (t : FontTables) (number : Nat) : Except Fault (List String) :=
  match t.definitions with
  | none => .error .notFound
  | some d =>
    match d.filters with
    | none => .error .missingPart
    | some sets =>
      (sets[number]?).elim (.error .outOfRange) .ok

def flagged (s : Setting) (l : LookupTable) (name : Option String) : Except Fault Routine := do
  let marks ← (Option.guard (· != 0) (Flags.landBits l.flags 0xFF00 / 256)).mapM (attachmentMarks s.tables)
  let filter ← (l.filter.filter fun _ => Flags.landBits l.flags 0x10 != 0).mapM (filterMarks s.tables)
  return { name, flags := .bits l.flags, markAttachmentSet := marks, markFilteringSet := filter }

/-! ### Contexts -/

def callOf (first : RoutineId) (lookup : Nat) : Lookup :=
  .ref { name := some (some ""), routine := some (first + lookup) }

def placeCall (first : RoutineId) (calls : Calls) (record : Nat × Nat) : Calls :=
  (calls ++ List.replicate (record.1 + 1 - calls.length) none).modify record.1 fun c =>
    some (c.getD [] ++ [callOf first record.2])

def placeCalls (s : Setting) (positions : Nat) (records : CallRecords) : Except Fault Calls :=
  if records.any (s.count ≤ ·.2) then .error .outOfRange
  else
    let calls := records.foldl (placeCall s.first) []
    if positions < calls.length then .error .brokenPromise
    else .ok (calls ++ List.replicate (positions - calls.length) none)

structure ClassSlot where
  glyphs : Slot
  rest : Bool := false

def invertClasses (all : List String) (m : ClassMap) : List (Nat × ClassSlot) :=
  let m := Dict.merge [] m
  let zero := Text.sort (Text.distinct (all.filter fun g => !Dict.has m g))
  let others := Text.distinct ((m.map (·.2)).filter (· != 0))
  (0, { glyphs := zero, rest := true }) ::
    others.map fun n => (n, { glyphs := (m.filter (·.2 == n)).map (·.1) })

def classAt (classes : List (Nat × ClassSlot)) (n : Nat) : Except Fault ClassSlot :=
  match classes.find? (·.1 == n) with
  | some (_, c) => .ok c
  | none => .error .notFound

def isUnwritable (slots : List ClassSlot) : Bool := slots.any fun c => c.rest && c.glyphs.length == 1

def chainRule (s : Setting) (flags : Int) (number : Nat) (input before after : List Slot)
    (records : CallRecords) : Except Fault Rule := do
  let calls ← placeCalls s input.length records
  return { body := .chaining { input := some input, before, after, calls }
           flags := .bits flags, address := .number number }

/-- The classes of a definition. Without one there are none. -/
def classesOf (s : Setting) (m : Option ClassMap) : List (Nat × ClassSlot) :=
  (m.map (invertClasses s.tables.glyphs)).getD []

/-- The glyphs of a class. A class that is not there has none. -/
def slotOf (classes : List (Nat × ClassSlot)) (n : Nat) : Slot := ((classes.find? (·.1 == n)).map (·.2.glyphs)).getD []

/-- A rule on classes, which starts with those glyphs of a class that are covered. -/
def classRule (s : Setting) (flags : Int) (number : Nat) (coverage : List String)
    (classes before after : List (Nat × ClassSlot)) (first : Nat) (r : ContextRule Nat) : Except Fault Rule := do
  let pre ← r.before.mapM (classAt before)
  let post ← r.after.mapM (classAt after)
  let rest ← r.input.mapM (classAt classes)
  let rule ← chainRule s flags number ((slotOf classes first).filter coverage.contains :: rest.map (·.glyphs))
    (pre.reverse.map (·.glyphs)) (post.map (·.glyphs)) r.calls
  return { rule with unwritable := isUnwritable (pre ++ post ++ rest) }

/-- The rules of all sets, each with the class that its set is for. -/
def classRows (sets : List (Option (List (ContextRule Nat)))) : List (Nat × ContextRule Nat) :=
  sets.zipIdx.flatMap fun set => (set.1.getD []).map (set.2, ·)

def contextRules (s : Setting) (flags : Int) (number : Nat) : Context → Except Fault (List Rule)
  | .unknown => .error .badValue
  | .glyphs coverage sets => do
    let single (l : List String) : List Slot := l.map fun g => [g]
    let rules ← (sets.zip coverage).mapM fun (rules, first) =>
      match rules with
      | none => .error .missingPart
      | some rules => rules.mapM fun r =>
        chainRule s flags number (single (first :: r.input)) (single r.before.reverse) (single r.after) r.calls
    return rules.flatten
  | .classes _ none _ _ _ => .error .missingPart
  | .classes coverage (some input) before after sets =>
    (classRows sets).mapM fun row => classRule s flags number coverage (classesOf s (some input))
      (classesOf s before) (classesOf s after) row.1 row.2
  | .coverage input before after calls => do
    return [← chainRule s flags number input before.reverse after calls]

/-! ### Attachments -/

def nameAt (names : List String) (i : Nat) : Except Fault String :=
  (names[i]?).elim (.error .outOfRange) .ok

def fixedPoint (p : Number × Number) : Point := (.fixed p.1, .fixed p.2)

/-- The anchors in the records of some glyphs. -/
def anchorsOf {α : Type} (names : List String) (records : List α)
    (anchor : α → Except Fault (Option (Number × Number))) : Except Fault (List (String × Point)) := do
  let found ← records.zipIdx.mapM fun x => do
    match ← anchor x.1 with
    | some p => return [(← nameAt names x.2, fixedPoint p)]
    | none => return []
  return Dict.merge [] found.flatten

def markAnchor (n : Nat) (m : Nat × Number × Number) : Except Fault (Option (Number × Number)) :=
  .ok (if m.1 == n then some m.2 else none)

/-- The anchor of a base for a class. A mark is a base by its one anchor, for all classes. -/
def baseAnchor (markToMark : Bool) (n : Nat) (a : Anchors) : Except Fault (Option (Number × Number)) :=
  if markToMark then
    match a with
    | [some p] => .ok (some p)
    | [none] => .error .missingPart
    | _ => .ok none
  else .ok a[n]?.join

def categorised (t : FontTables) (names : List String) : Font :=
  let known := ((t.definitions.bind (·.categories)).getD [])
  { glyphs := (Text.distinct (t.glyphs ++ names)).map fun n =>
      { name := n, category := if Dict.get? known n == some 3 then some "mark" else none } }

def attachmentRules (s : Setting) (flags : Int) (number : Nat) (markToMark : Bool) (coverage baseNames : List String)
    (classes : Nat) (marks : List (Nat × Number × Number)) (anchors : List Anchors) : Reading (List Rule) :=
  (List.range classes).mapM fun n => do
    let name := "Anchor" ++ (← Reading.fresh)
    let ms ← anchorsOf coverage marks (markAnchor n)
    let bs ← anchorsOf baseNames anchors (baseAnchor markToMark n)
    return { body := .attachment
               { baseName := some name, markName := some (name ++ "_"), bases := bs, marks := ms
                 markToMark, font := some (categorised s.tables baseNames) }
             flags := .bits flags, address := .number number, languages := some (.pairs []) }

/-! ### Lookups -/

/-- The types of lookups by their number, as they appear in names. -/
def typeLabel? : TableKind → Int → Option String
  | .substitution, 1 => some "SingleSubstitution"
  | .substitution, 2 => some "MultipleSubstitution"
  | .substitution, 3 => some "AlternateSubstitution"
  | .substitution, 4 => some "LigatureSubstitution"
  | .substitution, 5 => some "ContextualGSUB"
  | .substitution, 6 => some "ChainedContextualGSUB"
  | .substitution, 7 => some "Extension"
  | .substitution, 8 => some "ReverseContextualSubstitution"
  | .positioning, 1 => some "SinglePositioning"
  | .positioning, 2 => some "PairPositioning"
  | .positioning, 3 => some "CursiveAttachment"
  | .positioning, 4 => some "MarkToBase"
  | .positioning, 5 => some "MarkToLigature"
  | .positioning, 6 => some "MarkToMark"
  | .positioning, 7 => some "ContextualGPOS"
  | .positioning, 8 => some "ChainedContextualGPOS"
  | .positioning, 9 => some "Extension"
  | _, _ => none

def subtableRules (s : Setting) (markToMark : Bool) (flags : Int) (number : Nat) : Subtable → Reading (List Rule)
  | .single m => return (Dict.merge [] m).map fun (a, b) => substitution [[a]] [[b]]
  | .multiple m => return (Dict.merge [] m).map fun (a, bs) => substitution [[a]] (bs.map ([·]))
  | .alternate m => return (Dict.merge [] m).map fun (a, bs) => substitution [[a]] [bs] true
  | .ligature m =>
    return (Dict.merge [] m).flatMap fun (first, ligatures) =>
      ligatures.map fun (rest, glyph) => substitution ((first :: rest).map ([·])) [[glyph]]
  | .context c => contextRules s flags number c
  | .reverse coverage output before after =>
    return [{ body := .substitution { input := some [coverage], replacement := some [output]
                                      before := before.reverse, after, reversal := .backward }
              flags := .bits flags }]
  | .value coverage v => return [positioning [coverage] [v]]
  | .values coverage vs => return (coverage.zip vs).map fun (g, v) => positioning [[g]] [v]
  | .pairs coverage sets =>
    return (coverage.zip sets).flatMap fun (g, set) => set.map fun (h, v, w) => positioning [[g], [h]] [v, w]
  | .classPairs coverage first second rows =>
    let firsts := invertClasses s.tables.glyphs first
    let seconds := invertClasses s.tables.glyphs second
    return rows.zipIdx.flatMap fun (row, i) =>
      match firsts.find? (·.1 == i) with
      | none => []
      | some (_, c) =>
        let own := Text.sort (Text.distinct (c.glyphs.filter coverage.contains))
        row.zipIdx.filterMap fun ((v, w), j) =>
          (seconds.find? (·.1 == j)).bind fun (_, d) =>
            if v.settled.isSet || w.settled.isSet then
              some { positioning [own, d.glyphs] [v, w] with unwritable := isUnwritable [d] }
            else none
  | .marks coverage bases classes marks anchors =>
    attachmentRules s flags number markToMark coverage bases classes marks anchors
  | .cursive _ _ | .extension _ _ | .nothing => return []
where
  substitution (input output : List Slot) (alternate : Bool := false) : Rule :=
    { body := .substitution { input := some input, replacement := some output, alternate }
      flags := .bits flags, address := .number number }
  positioning (glyphs : List Slot) (values : List ValueRecord) : Rule :=
    { body := .positioning { glyphs, values := values.map fun v => some v.settled }
      flags := .bits flags, address := .number number }

def cursiveRule (flags : Int) (number : Nat) (subtables : List Subtable) : Rule :=
  let records := subtables.flatMap fun
    | .cursive coverage records => coverage.zip records
    | _ => []
  let points (f : Option (Number × Number) × Option (Number × Number) → Option (Number × Number)) :=
    Dict.merge [] (records.filterMap fun (g, r) => (f r).map fun p => (g, fixedPoint p))
  { body := .attachment { baseName := some "cursive_entry", markName := some "cursive_exit"
                          bases := points (·.1), marks := points (·.2) }
    flags := .bits flags, address := .number number, languages := some (.pairs []) }

def plainRules (s : Setting) (number : Nat) (l : LookupTable) (label : String) : Reading (List Rule) :=
  -- Marks on ligatures cannot be read.
  if label == "MarkToLigature" then throw .missingPart
  else if label == "CursiveAttachment" then return [cursiveRule l.flags number l.subtables]
  else do return (← l.subtables.mapM (subtableRules s (label == "MarkToMark") l.flags number)).flatten

def plainLookup (s : Setting) (number : Nat) (l : LookupTable) (label : String) : Reading (Routine × List Rule) := do
  let routine ← flagged s l (← routineName s label)
  return (routine, ← plainRules s number l label)

def extensionRules (s : Setting) (number : Nat) (flags : Int) : Int → Subtable → Reading (List Rule)
  | type, sub =>
    match typeLabel? s.kind type with
    | none => throw .notFound
    | some "Extension" =>
      match sub with
      | .extension inner sub => extensionRules s number flags inner sub
      | _ => throw .missingPart
    | some label => do
      return (← plainLookup s number { type, flags, subtables := [sub] } label).2

def lookupRoutine (s : Setting) (number : Nat) (l : LookupTable) : Reading (Routine × List Rule) := do
  match typeLabel? s.kind l.type with
  | none => throw .notFound
  | some "Extension" =>
    let rules ← l.subtables.mapM fun
      | .extension type sub => extensionRules s number l.flags type sub
      | _ => throw .missingPart
    return ({}, rules.flatten)
  | some label => plainLookup s number l label

def withOrigin (s : Setting) (number : Nat) (r : Routine) : Except Fault Routine :=
  match s.tables.origins with
  | none => .ok r
  | some origins =>
    match ((origins.find? (·.1 == s.kind.tag)).bind fun (_, l) => l.find? (·.1 == number)) with
    | none => .error .notFound
    | some (_, place, name) =>
      let nameAddress := match name with
        | some n => Address.text n
        | none => .none
      .ok { r with
        address := .list [.text s.kind.tag, .number number, place, nameAddress]
        name := if (name.getD "").isEmpty then r.name else name }

/-- The routines of all lookups, with their rules. -/
def readLookups (s : Setting) (lookups : List LookupTable) : Reading (List (Routine × List Rule)) :=
  lookups.zipIdx.mapM fun x => do
    let (routine, rules) ← lookupRoutine s x.2 x.1
    return (← withOrigin s x.2 routine, rules)

/-! ### Tables -/

/-- The features of the language systems of a script; the default one has a name here. -/
def ScriptTable.systems (s : ScriptTable) : List (LanguageSystem × List Nat) :=
  (s.default.toList.map fun indices => ((s.tag, "dflt"), indices)) ++ s.languages.map fun x => ((s.tag, x.1), x.2)

def LayoutTable.systems (t : LayoutTable) : List (LanguageSystem × List Nat) :=
  (t.scripts.getD []).flatMap ScriptTable.systems

namespace Act

open GlyphRules.Act (resolveAll)

/-- Empty routines in force, one for each lookup. -/
def reserve (b : Book) (count : Nat) : Book :=
  { b with
    routines := b.routines ++ Array.replicate count {}
    order := b.order ++ List.range' b.routines.size count }

/-- Put a routine with its rules in the place of another. -/
def fill (first : RoutineId) (b : Book) (x : (Routine × List Rule) × Nat) : Book :=
  { b with
    routines := b.routines.setIfInBounds (first + x.2)
      { x.1.1 with content := .rules (List.range' b.rules.size x.1.2.length) }
    rules := b.rules ++ x.1.2.toArray }

def fillLookups (s : Setting) (lookups : List LookupTable) : Act Unit := do
  let (read, _) ← ofExcept ((readLookups s lookups).run 0)
  modify (read.zipIdx.foldl (fill s.first))

def useLookup (s : Setting) (tag : String) (system : LanguageSystem) (lookup : Nat) : Act Unit := do
  if s.count ≤ lookup then throw .outOfRange
  let id := s.first + lookup
  modify fun b => b.alterRoutine id fun r => { r with languages := match r.languages with
    | .pairs l => .pairs (l ++ [system])
    | .text t => .text t }
  let b ← get
  let known := ((Dict.get? b.features tag).getD []).any fun
    | .ref r => r.routine == some id
    | .bare i => i == id
  if !known then modify fun b => b.addFeature tag [.ref (Reference.make b none (some id))]

def useFeatures (s : Setting) (features : List (String × List Nat)) (system : LanguageSystem) (indices : List Nat) :
    Act Unit :=
  indices.forM fun i => do
    match features[i]? with
    | none => throw .outOfRange
    | some (tag, lookups) => lookups.forM (useLookup s tag system)

def readTable (kind : TableKind) (tables : FontTables) (names : Option (List (String × String)))
    (t : LayoutTable) : Act Unit := do
  if t.scripts.isSome then
    let lookups := t.lookups.getD []
    let first := (← get).routines.size
    let s : Setting := { kind, tables, names, first, count := lookups.length }
    modify (reserve · lookups.length)
    fillLookups s lookups
    t.systems.forM fun x => useFeatures s t.features x.1 x.2
    resolveAll

def categoryName : Int → Except Fault String
  | 1 => .ok "base"
  | 2 => .ok "ligature"
  | 3 => .ok "mark"
  | 4 => .ok "component"
  | _ => .error .notFound

/-- Add the rules of a font's tables to the book, with the categories of its glyphs if wanted. -/
def readTables (tables : FontTables) (names : Option (List (String × String))) (categories : Bool) : Act Unit := do
  tables.substitution.forM (readTable .substitution tables names)
  tables.positioning.forM (readTable .positioning tables names)
  if categories then
    for (g, n) in (tables.definitions.bind (·.categories)).getD [] do
      let name ← ofExcept (categoryName n)
      modify fun b => { b with glyphClasses := Dict.set b.glyphClasses g (some name) }

end Act
end GlyphRules.Layout
