import GlyphRules.FontDame.Line
import GlyphRules.Book.Reference

/-! FontDame listings.

A listing holds a table of scripts, a table of features and lookups. Each line is a step
(`Listing.step`) that depends on the part that is being read. Classes of a lookup may grow after a
rule has used them, so rules keep the number of the class until `toBook` makes a book of the
listing. -/
namespace GlyphRules.FontDame

/-- The part of a listing that is being read. -/
inductive Mode where
  | nothing | scripts | features | lookup | inputClass | beforeClass | afterClass
deriving DecidableEq

/-- A slot of a chain: glyphs by name, a class by its number, or all glyphs that are in no class. -/
inductive SlotForm where
  | glyphs (names : List String)
  | cls (number : Nat)
  | others (names : List String)

inductive RuleForm where
  | substitution (input replacement : List Slot)
  | advance (glyph : String) (amount : Int)
  | attachment (base mark : String) (bases marks : List (String × Int × Int))
  | chain (before input after : List SlotForm) (calls : List String)

structure LookupForm where
  name : String
  flags : Nat := 0
  rules : List RuleForm := []
deriving Inhabited

structure FeatureForm where
  tag : String
  lookups : List String

abbrev Classes := List (String × Nat)

structure Listing where
  /-- The glyphs of the font, if they are known. -/
  glyphs : List String := []
  mode : Mode := .nothing
  /-- Scripts and languages in order. -/
  languages : List String := []
  /-- The languages of each feature. -/
  uses : List (Int × List String) := []
  features : List (Int × FeatureForm) := []
  /-- Every lookup that was begun. -/
  forms : Array LookupForm := #[]
  /-- The lookups by name; a name that is used again means the later one, at the earlier place. -/
  lookups : List (String × Nat) := []
  current : Option Nat := none
  kind : Option String := none
  members : Array (List String) := #[]
  input : Classes := []
  before : Classes := []
  after : Classes := []
  printed : String := ""
  warnings : List String := []

abbrev Read := Step Listing

namespace Listing

/-! ### Small steps -/

def print (text : String) : Read Unit := modify fun s => { s with printed := s.printed ++ text ++ "\n" }

def refuse {α : Type} (text : String) : Read α := throw (.refused (.verbatim text))

/-- The lookup that is being read; without one nothing can be added. -/
def lookup : Read LookupForm := do
  let s ← get
  (s.current.bind (s.forms[·]?)).elim (throw .missingPart) pure

def alterLookup (f : LookupForm → LookupForm) : Read Unit := do
  let _ ← lookup
  modify fun s =>
    match s.current with
    | some i => { s with forms := s.forms.modify i f }
    | none => s

def addRule (r : RuleForm) : Read Unit := alterLookup fun f => { f with rules := f.rules ++ [r] }

def scriptLine (cs : Chars) : Read Unit := do
  match twoWords? cs with
  | none => throw .wrongKind
  | some (script, language, rest) =>
    let name := script ++ "/" ++ language
    modify fun s => { s with languages := s.languages ++ [name] }
    for part in commaParts rest do
      let n ← ofExcept (Number.read part)
      modify fun s => { s with uses := Dict.alter s.uses n [] (· ++ [name]) }

def featureLine (cs : Chars) : Read Unit := do
  match twoWords? cs with
  | none => throw .wrongKind
  | some (number, tag, rest) =>
    let n ← ofExcept (Number.read number)
    let f : FeatureForm := { tag, lookups := commaParts rest }
    modify fun s => { s with features := Dict.set s.features n f }

def headerLine (cs : Chars) : Read Unit := do
  match header? cs with
  | none => refuse ("Unparsable lookup header: |" ++ String.ofList cs ++ "|")
  | some (name, kind) =>
    modify fun s => { s with
      forms := s.forms.push { name := "lookup_" ++ name }
      lookups := Dict.set s.lookups name s.forms.size
      current := some s.forms.size
      kind := some kind }

def endLookup : Read Unit := modify fun s => { s with current := none, input := [], before := [], after := [] }

def flagBits? (flag : String) : Option Nat :=
  match flag with
  | "IgnoreMarks" => some 8
  | "IgnoreLigatures" => some 4
  | "IgnoreBaseGlyphs" => some 2
  | "RightToLeft" => some 1
  | _ => do
    let ds ← Text.dropStart? "mat".toList flag.toList
    let (n, rest) ← number? ds
    if rest.isEmpty then some (n * 256) else none

def raiseFlag (flag : String) : Read Unit := do
  match flagBits? flag with
  | some bits => alterLookup fun f => { f with flags := f.flags ||| bits }
  | none =>
    print ("Unknown flag " ++ flag)
    let _ ← lookup
    throw .unsetName

/-! ### Attachments -/

def RuleForm.setAnchor (onBase : Bool) (glyph : String) (p : Int × Int) : RuleForm → RuleForm
  | .attachment base mark bases marks =>
    if onBase then .attachment base mark (Dict.set bases glyph p) marks
    else .attachment base mark bases (Dict.set marks glyph p)
  | r => r

def addAnchor (base mark : String → String) (onBase : Bool) (glyph : String) (p : Int × Int) : Read Unit := do
  let f ← lookup
  let rules := if f.rules.isEmpty then [RuleForm.attachment (base f.name) (mark f.name) [] []] else f.rules
  alterLookup fun f =>
    { f with rules := rules.dropLast ++ (rules.getLast?.map (RuleForm.setAnchor onBase glyph p)).toList }

/-! ### Chains -/

def classSlot (classes : Classes) (name : String) : Read SlotForm := do
  let s ← get
  let name := Text.strip name
  if name == "0" then
    if s.glyphs.isEmpty then
      refuse ("Class 0 in contextual (" ++ (← lookup).name ++ ") but I don't know the glyphset")
    let taken := classes.flatMap fun (_, i) => s.members.getD i []
    return .others (Text.sort (Text.distinct (s.glyphs.filter fun g => !taken.contains g)))
  match Dict.get? classes name with
  | some i => return .cls i
  | none =>
    print ("Couldn't find a class definition for class " ++ name ++ " in lookup " ++ (← lookup).name)
    throw .notFound

def classSlots (classes : Classes) (text : String) : Read (List SlotForm) :=
  (commaParts text.toList).mapM (classSlot classes)

def contextLine (cs : Chars) : Read Unit := do
  let second (l : List String) : Read String := do
    match l with
    | _ :: p :: _ => return p
    | _ => throw .outOfRange
  if Text.startsWith "glyph".toList cs then
    let parts := tabParts cs
    let input := (commaParts (← second parts).toList).map fun g => SlotForm.glyphs [g]
    addRule (.chain [] input [] (parts.drop 2))
  else if Text.startsWith "class".toList cs then
    let parts := tabParts cs
    let names := String.ofList ((← second parts).toList.filter (· != ' '))
    let input ← classSlots (← get).input names
    addRule (.chain [] input [] (parts.drop 2))

def chainLine (cs : Chars) : Read Unit := do
  if Text.startsWith "class-chain".toList cs then
    match classChain? cs with
    | none => throw .wrongKind
    | some (before, input, after, calls) =>
      let s ← get
      let before ← if before.isEmpty then pure [] else classSlots s.before before
      let input ← classSlots s.input input
      let after ← if after.isEmpty then pure [] else classSlots s.after after
      addRule (.chain before.reverse input after calls)
  else if Text.startsWith "glyph".toList cs then refuse "GSUB6.1 not supported yet"

/-! ### Lookups -/

def lookupLine (cs : Chars) : Read Unit := do
  let line := String.ofList cs
  if let some (flag, on) := flagLine? cs then
    if on then raiseFlag flag
    return
  if let some n := attachmentType? cs then
    alterLookup fun f => { f with flags := f.flags ||| n * 256 }
    return
  match (← get).kind with
  | none => throw .missingPart
  | some "single" =>
    match advance? cs, twoNames? cs with
    | some (glyph, n), _ => addRule (.advance glyph n)
    | none, some (a, b) => addRule (.substitution [[a]] [[b]])
    | none, none => throw .wrongKind
  | some "multiple" =>
    match multiple? cs with
    | some (a, parts) => addRule (.substitution [[a]] (parts.map fun p => [p]))
    | none => throw .wrongKind
  | some "ligature" =>
    match ligature? cs with
    | some (a, rest) => addRule (.substitution [[rest]] [[a]])
    | none => refuse ("Unparsable line '" ++ line ++ "'")
  | some "cursive" =>
    match cursive? cs with
    | some (isEntry, glyph, p) => addAnchor (fun _ => "cursive_entry") (fun _ => "") isEntry glyph p
    | none => refuse ("Unparsable cursive '" ++ line ++ "'")
  | some "mark to base" | some "mark to mark" =>
    match mark? cs with
    | some (isBase, glyph, p) => addAnchor (· ++ "_BS") (· ++ "_MK") isBase glyph p
    | none => refuse ("Unparsable mark '" ++ line ++ "'")
  | some "mark to ligature" =>
    modify fun s => { s with warnings := s.warnings ++ ["Mark to ligature not yet supported"] }
  | some "context" => contextLine cs
  | some "chained" => chainLine cs
  | some kind =>
    print line
    refuse ("Unsupported lookup type |" ++ kind ++ "|")

/-- Put a glyph into a class; a new class gets a number. -/
def addMember (classes : Classes) (name glyph : String) : Read Classes := do
  let s ← get
  match Dict.get? classes name with
  | some i =>
    set { s with members := s.members.modify i (· ++ [glyph]) }
    return classes
  | none =>
    set { s with members := s.members.push [glyph] }
    return classes ++ [(name, s.members.size)]

def classLine (cs : Chars) (classes : Listing → Classes) (put : Classes → Listing → Listing) : Read Unit := do
  match member? cs with
  | none => refuse ("Unparsable line '" ++ String.ofList cs ++ "'")
  | some (glyph, name) =>
    let new ← addMember (classes (← get)) name glyph
    modify (put new)

/-- What a line says about the part that follows. -/
def modeLine? (line : String) : Option Mode :=
  match line with
  | "script table begin\n" => some .scripts
  | "feature table begin\n" => some .features
  | "class definition begin\n" => some .inputClass
  | "backtrackclass definition begin\n" => some .beforeClass
  | "lookaheadclass definition begin\n" => some .afterClass
  | "class definition end\n" => some .lookup
  | "feature table end\n" => some .nothing
  | "script table end\n" => some .nothing
  | _ => none

def step (line : String) : Read Unit := do
  let cs := line.toList
  if line == "\n" then return
  if let some mode := modeLine? line then
    modify fun s => { s with mode }
    return
  if Text.startsWith "lookup end".toList cs then
    endLookup
    modify fun s => { s with mode := .nothing }
    return
  if Text.startsWith "lookup".toList cs then
    headerLine cs
    modify fun s => { s with mode := .lookup }
    return
  if cs.head? == some '#' || cs.head? == some '%' then return
  match (← get).mode with
  | .nothing => return
  | .scripts => scriptLine cs
  | .features => featureLine cs
  | .lookup => lookupLine cs
  | .inputClass => classLine cs (·.input) fun c s => { s with input := c }
  | .beforeClass => classLine cs (·.before) fun c s => { s with before := c }
  | .afterClass => classLine cs (·.after) fun c s => { s with after := c }

def steps (lines : List String) : Read Unit := lines.forM step

end Listing
end GlyphRules.FontDame
