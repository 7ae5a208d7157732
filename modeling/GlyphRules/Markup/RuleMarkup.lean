import GlyphRules.Book.Reference
import GlyphRules.Markup.Tree
import GlyphRules.Number.Reader

/-! Rules and books as markup.

`encode…` writes, `decode…` reads. Not all comes back as written: flags of substitutions and
positionings come back as texts, an empty side as missing. -/
namespace GlyphRules.Markup

/-! ### Writing -/

def attribute? (key : String) (value : Option String) : Except Fault (List (String × String)) :=
  match value with
  | none => .ok []
  | some v => do return [(key, ← allowed v)]

def required (key : String) (value : Option String) : Except Fault (String × String) :=
  match value with
  | none => .error .wrongKind
  | some v => do return (key, ← allowed v)

def encodeGlyph (g : String) : Except Fault Node := do
  if g == nameless then return .element "glyph" [] none []
  return .element "glyph" [] (some (← allowed g)) []

def encodeSlot (s : Slot) : Except Fault Node := do
  return .element "slot" [] none (← s.mapM encodeGlyph)

def encodeSlots (tag : String) (slots : List Slot) : Except Fault (List Node) :=
  if slots.isEmpty then .ok []
  else do return [.element tag [] none (← slots.mapM encodeSlot)]

def encodeReference (r : Reference) : Except Fault Node :=
  match r.name with
  | none => .error .missingPart
  | some none | some (some "") => .ok (.element "routinereference" [] none [])
  | some (some n) => do return .element "routinereference" (← attribute? "name" (some n)) none []

def encodePoint (tag name : String) (p : Point) : Except Fault Node := do
  return .element tag [("name", ← allowed name), ("anchorX", p.1.text), ("anchorY", p.2.text)] none []

/-- A part of a value; nothing and zero are not written. -/
def encodePart (key : String) (s : Option Scalar) : List (String × String) :=
  match s with
  | some s => if s.counts then [(key, s.text)] else []
  | none => []

def encodeValue (v : Option ValueRecord) : Except Fault Node :=
  match v with
  | none => .error .missingPart
  | some v =>
    .ok (.element "valuerecord" (encodePart "xPlacement" v.xPlacement ++ encodePart "yPlacement" v.yPlacement ++
      encodePart "xAdvance" v.xAdvance ++ encodePart "yAdvance" v.yAdvance) none [])

def languagesText : Option Languages → Except Fault (Option String)
  | none | some (.pairs []) => .ok none
  | some (.pairs _) => .error .wrongKind
  | some (.text s) => .ok (if s.isEmpty then none else some s)

def addressText (a : Address) : Option String := if a.counts then some a.written else none

def flagsText (f : Flags) : Option String := if f.counts then some f.written else none

def reverseText : RuleBody → Option String
  | .substitution s => if s.reversal.counts then some "true" else none
  | _ => none

def headAttributes (r : Rule) : Except Fault (List (String × String)) := do
  let address ← attribute? "address" (addressText r.address)
  let languages ← attribute? "languages" (← languagesText r.languages)
  let reverse ← attribute? "reverse" (reverseText r.body)
  let flags ← attribute? "flags" (flagsText r.flags)
  return address ++ languages ++ reverse ++ flags

def addressPart : Address → Except Fault String
  | .text s => .ok s
  | _ => .error .wrongKind

def joinedAddress : Address → Except Fault (Option String)
  | .none => .ok none
  | .number n => if n == 0 then .ok none else .error .wrongKind
  | .text s =>
    if s.isEmpty then .ok none else .ok (some (Text.join "|" (s.toList.map fun c => String.ofList [c])))
  | .list [] => .ok none
  | .list parts => do return some (Text.join "|" (← parts.mapM addressPart))

def routineAttributes (r : Routine) : Except Fault (List (String × String)) := do
  let flags ← attribute? "flags" (flagsText r.flags)
  let address ← attribute? "address" (← joinedAddress r.address)
  let name ← attribute? "name" (r.name.filter (!·.isEmpty))
  return flags ++ address ++ name

/-- A call; a routine that stands there itself is written in full. -/
def encodeCall (routine : RoutineId → Except Fault Node) : Lookup → Except Fault Node
  | .ref ref => encodeReference ref
  | .bare i => routine i

def encodeCallSlot (routine : RoutineId → Except Fault Node) : Option (List Lookup) → Except Fault Node
  | none | some [] => .ok (.element "slot" [] none [.element "lookup" [] none []])
  | some ls => do return .element "slot" [] none (← ls.mapM (encodeCall routine))

def encodeCalls (routine : RoutineId → Except Fault Node) : Option Calls → Except Fault (List Node)
  | none | some [] => .ok []
  | some calls => do return [.element "lookups" [] none (← calls.mapM (encodeCallSlot routine))]

mutual
def encodeRule (b : Book) : Nat → Rule → Except Fault Node
  | 0, _ => .error .endless
  | fuel + 1, r => do
    let attributes ← headAttributes r
    let before ← encodeSlots "precontext" r.before
    let after ← encodeSlots "postcontext" r.after
    let calls ← encodeCalls (encodeRoutine b fuel) r.calls
    let head := before ++ after ++ calls
    match r.body with
    | .substitution s =>
      let from_ ← encodeSlots "from" (s.input.getD [])
      let to_ ← encodeSlots "to" (s.replacement.getD [])
      return .element "substitution" attributes none (head ++ from_ ++ to_)
    | .positioning p =>
      let glyphs ← encodeSlots "glyphs" p.glyphs
      let values ← p.values.mapM encodeValue
      return .element "positioning" attributes none (head ++ glyphs ++ [.element "positions" [] none values])
    | .chaining c =>
      return .element "chaining" attributes none (head ++ (← encodeSlots "input" (c.input.getD [])))
    | .attachment a =>
      let names := [← required "basename" a.baseName, ← required "markname" a.markName]
      let bases ← a.bases.mapM fun (g, p) => encodePoint "base" g p
      let marks ← a.marks.mapM fun (g, p) => encodePoint "mark" g p
      return .element "attachment" (attributes ++ names) none (head ++ bases ++ marks)

def encodeRoutine (b : Book) : Nat → RoutineId → Except Fault Node
  | 0, _ => .error .endless
  | fuel + 1, i => do
    let attributes ← routineAttributes (b.routine i)
    let rules ← (b.rulesOf i).mapM (encodeRule b fuel)
    return .element "routine" attributes none rules
end

/-- Enough steps for any nesting without a circle. -/
def depth (b : Book) : Nat := 2 * b.routines.size + 2

def ruleMarkup (b : Book) (r : Rule) : Except Fault Node := encodeRule b (depth b) r

def routineMarkup (b : Book) (i : RoutineId) : Except Fault Node := encodeRoutine b (depth b) i

def encodeNamed {α : Type} (tag : String) (encode : α → Except Fault Node) (e : String × List α) :
    Except Fault Node := do
  return .element tag [("name", ← allowed e.1)] none (← e.2.mapM encode)

def encodeClass (c : String × List String) : Except Fault Node := encodeNamed "class" encodeGlyph c

def encodeFeature (b : Book) (f : String × List Lookup) : Except Fault Node :=
  encodeNamed "feature" (encodeCall (routineMarkup b)) f

def encodeAnchor (a : String × Point) : Except Fault Node := do
  return .element "anchor" [("name", ← allowed a.1), ("x", a.2.1.text), ("y", a.2.2.text)] none []

def encodeAnchors (g : String × List (String × Point)) : Except Fault Node := encodeNamed "glyph" encodeAnchor g

def encodeCategory (g : String × Option String) : Except Fault Node := do
  return .element "glyph" [("name", ← allowed g.1), ← required "class" g.2] none []

def bookMarkup (b : Book) : Except Fault Node := do
  let classes ← b.namedClasses.mapM encodeClass
  let routines ← b.order.mapM (routineMarkup b)
  let features ← b.features.mapM (encodeFeature b)
  let anchors ← b.anchors.mapM encodeAnchors
  let categories ← b.glyphClasses.mapM encodeCategory
  return .element "fontfeatures" [] none
    [.element "namedclasses" [] none classes, .element "routines" [] none routines,
     .element "features" [] none features, .element "anchors" [] none anchors,
     .element "glyphclasses" [] none categories]

/-! ### Reading -/

def decodeSlots (n : Option Node) : Option (List Slot) :=
  n.map fun n => n.children.map fun slot => (slot.findAll "glyph").map fun g => g.text?.getD nameless

def decodeAddress (n : Node) : Address := ((n.get? "address").map Address.text).getD .none

def decodeLanguages (n : Node) : Option Languages := (n.get? "languages").map Languages.text

def decodeFlags (n : Node) : Flags := ((n.get? "flags").map Flags.text).getD .unset

def readNumber? : Option String → Except Fault (Option Int)
  | none | some "" => .ok none
  | some s => do return some (← Number.read s)

def decodeBits (n : Node) : Except Fault Flags := do
  return .bits ((← readNumber? (n.get? "flags")).getD 0)

def decodeNumber (key : String) (n : Node) : Except Fault Int :=
  match n.get? key with
  | none => .error .wrongKind
  | some s => Number.read s

def decodePart (key : String) (n : Node) : Except Fault (Option Scalar) := do
  return (← readNumber? (n.get? key)).map Scalar.int

def decodeValue (n : Node) : Except Fault ValueRecord := do
  return { xPlacement := ← decodePart "xPlacement" n, yPlacement := ← decodePart "yPlacement" n,
           xAdvance := ← decodePart "xAdvance" n, yAdvance := ← decodePart "yAdvance" n }

/-- The calls of a rule that is not a chain: an empty one for each part of the rule, and
none that names a routine. -/
def decodeEmptyCalls (n : Node) : Except Fault (Option Calls) :=
  match n.find? "lookups" with
  | some (.element _ _ _ (_ :: _)) =>
    if n.children.any fun c => !(c.findAll "routine").isEmpty then .error .undefinedName
    else .ok (some (n.children.map fun _ => some []))
  | _ => .ok none

def decodeSubstitution (n : Node) : Except Fault Rule := do
  return { body := .substitution
             { input := decodeSlots (n.find? "from"), replacement := decodeSlots (n.find? "to")
               before := (decodeSlots (n.find? "precontext")).getD []
               after := (decodeSlots (n.find? "postcontext")).getD []
               reversal := ((n.get? "reverse").map Reversal.text).getD .unset
               calls := (← decodeEmptyCalls n).getD [] }
           flags := decodeFlags n, languages := decodeLanguages n, address := decodeAddress n }

def decodePositioning (n : Node) : Except Fault Rule := do
  match n.find? "positions" with
  | none => throw .missingPart
  | some positions =>
    let values ← (positions.findAll "valuerecord").mapM decodeValue
    match decodeSlots (n.find? "glyphs") with
    | none => throw .wrongKind
    | some glyphs =>
      if glyphs.length != values.length then throw .brokenPromise
      return { body := .positioning
                 { glyphs, values := values.map some
                   before := (decodeSlots (n.find? "precontext")).getD []
                   after := (decodeSlots (n.find? "postcontext")).getD []
                   calls := ← decodeEmptyCalls n }
               flags := decodeFlags n, languages := decodeLanguages n, address := decodeAddress n }

def nameOf (n : Node) : String := (n.get? "name").getD nameless

def decodePoint (n : Node) : Except Fault (Option String × String × Point) := do
  return (n.tag?, nameOf n, (Scalar.int (← decodeNumber "anchorX" n), Scalar.int (← decodeNumber "anchorY" n)))

def decodeAttachment (n : Node) : Except Fault Rule := do
  let flags ← decodeBits n
  let points ← n.children.mapM decodePoint
  let collect (tag : String) : List (String × Point) :=
    points.foldl (fun d (t, name, p) => if t == some tag then Dict.set d name p else d) []
  return { body := .attachment { baseName := n.get? "basename", markName := n.get? "markname"
                                 bases := collect "base", marks := collect "mark" }
           flags, languages := some (.pairs []), address := decodeAddress n }

def decodeReference (n : Node) : Reference :=
  match n.get? "name" with
  | none | some "" => {}
  | some name => { name := some (some name) }

/-- The kind of rule that a tag names, in any case of its letters. -/
inductive RuleTag where
  | substitution
  | positioning
  | chaining
  | attachment
  | routine
  | rule
deriving DecidableEq

def RuleTag.named? : String → Option RuleTag
  | "substitution" => some .substitution
  | "positioning" => some .positioning
  | "chaining" => some .chaining
  | "attachment" => some .attachment
  | "routine" => some .routine
  | "rule" => some .rule
  | _ => none

def RuleTag.ofTag? (n : Node) : Option RuleTag := n.tag?.bind fun tag => named? tag.toLower

def decodeHeader (n : Node) : Except Fault Routine := do
  let flags ← decodeBits n
  return { name := n.get? "name", flags
           address := .list ((Text.split '|' ((n.get? "address").getD "")).map Address.text) }

/-- What is read where a rule is expected. -/
inductive Entry where
  | rule (r : Rule)
  | routine (i : RoutineId)

def readCall (routine : Node → Act RoutineId) (n : Node) : Act (Option Lookup) := do
  if n.tag? == some "routinereference" then return some (.ref (decodeReference n))
  else if n.tag? == some "routine" then return some (.bare (← routine n))
  else return none

def readCallSlot (routine : Node → Act RoutineId) (n : Node) : Act (Option (List Lookup)) := do
  return some (← n.children.filterMapM (readCall routine))

def putEntry (i : RoutineId) : Entry → Act Unit
  | .rule r => modify fun b => b.appendRule i r
  | .routine _ => throw .brokenPromise

mutual
def decodeEntry : Nat → Node → Act Entry
  | 0, _ => throw .endless
  | fuel + 1, n => do
    match RuleTag.ofTag? n with
    | none => throw .missingPart
    | some .substitution => return .rule (← ofExcept (decodeSubstitution n))
    | some .positioning => return .rule (← ofExcept (decodePositioning n))
    | some .attachment => return .rule (← ofExcept (decodeAttachment n))
    | some .chaining => return .rule (← decodeChaining fuel n)
    | some .routine => return .routine (← decodeRoutine fuel n)
    | some .rule => throw .endless

def decodeChaining : Nat → Node → Act Rule
  | 0, _ => throw .endless
  | fuel + 1, n => do
    let flags ← ofExcept (decodeBits n)
    match n.find? "lookups" with
    | none => throw .wrongKind
    | some lookups =>
      let calls ← lookups.children.mapM (readCallSlot (decodeRoutine fuel))
      return { body := .chaining
                 { input := decodeSlots (n.find? "input")
                   before := (decodeSlots (n.find? "precontext")).getD []
                   after := (decodeSlots (n.find? "postcontext")).getD []
                   calls }
               flags, languages := decodeLanguages n, address := decodeAddress n }

def decodeRoutine : Nat → Node → Act RoutineId
  | 0, _ => throw .endless
  | fuel + 1, n => do
    let header ← ofExcept (decodeHeader n)
    let (i, b) := (← get).addRoutine header
    set b
    n.children.forM fun c => do putEntry i (← decodeEntry fuel c)
    return i
end

/-- Read a rule; a routine may stand in its place. -/
def readEntry (n : Node) : Act Entry := decodeEntry (2 * n.size + 2) n

def readRoutine (n : Node) : Act RoutineId := decodeRoutine (2 * n.size + 2) n

def readClass (n : Node) : Act Unit := do
  let members := n.children.map fun g => g.text?.getD nameless
  modify fun b => { b with namedClasses := Dict.set b.namedClasses (nameOf n) members }

def readFeature (n : Node) : Act Unit := do
  let calls := n.children.map fun r => Lookup.ref (decodeReference r)
  modify fun b => { b with features := Dict.set b.features (nameOf n) calls }

def decodeAnchor (n : Node) : Except Fault (String × Point) := do
  return (nameOf n, (Scalar.int (← decodeNumber "x" n), Scalar.int (← decodeNumber "y" n)))

def readAnchors (n : Node) : Act Unit := do
  let points ← ofExcept (n.children.mapM decodeAnchor)
  modify fun b => { b with anchors := Dict.set b.anchors (nameOf n) (Dict.merge [] points) }

def readCategory (n : Node) : Act Unit :=
  modify fun b => { b with glyphClasses := Dict.set b.glyphClasses (nameOf n) (n.get? "class") }

def readPart (part : Node) : Act Unit := do
  match part.tag? with
  | some "namedclasses" => part.children.forM readClass
  | some "routines" =>
    let order ← part.children.mapM readRoutine
    modify fun b => { b with order }
  | some "features" => part.children.forM readFeature
  | some "anchors" => part.children.forM readAnchors
  | some "glyphclasses" => part.children.forM readCategory
  | _ => pure ()

def resolveCall (l : Lookup) : Act Lookup := do
  match l with
  | .ref r => return .ref (← ofExcept ((← get).resolve r))
  | l => return l

def resolveFeature (f : String × List Lookup) : Act (String × List Lookup) := do
  return (f.1, ← f.2.mapM resolveCall)

def readBook (n : Node) : Act Unit := do
  n.children.forM readPart
  let features ← (← get).features.mapM resolveFeature
  modify fun b => { b with features }

end GlyphRules.Markup
