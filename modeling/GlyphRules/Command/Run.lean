import GlyphRules.Command.Source
import GlyphRules.Command.ClassExpression
import GlyphRules.Command.Rules
import GlyphRules.Command.Anchors
import GlyphRules.Command.Blocks
import GlyphRules.Command.Variants
import GlyphRules.Command.Kerning
import GlyphRules.Command.Ligatures
import GlyphRules.Command.Glyphs
import GlyphRules.Command.Tails

/-! Running commands.

The commands of a block run before the command that has it. Verbs come in plugins, some loaded from
the start; an unknown verb is only worth a note. -/
namespace GlyphRules.Command

/-! ### Plugins -/

def plugins : List (String × List (String × Verb)) :=
  [("LoadPlugin", [("LoadPlugin", .loadPlugin)]),
    ("ClassDefinition", [("DefineClass", .defineClass), ("DefineClassBinned", .defineClassBinned)]),
    ("Conditional", [("If", .condition)]),
    ("Feature", [("Feature", .feature), ("FeatureName", .featureName)]),
    ("Substitute", [("Substitute", .substitute), ("ReverseSubstitute", .reverseSubstitute)]),
    ("Position", [("Position", .position)]),
    ("Chain", [("Chain", .chain)]),
    ("Anchors", [("Anchors", .anchors), ("Attach", .attach), ("LoadAnchors", .loadAnchors)]),
    ("Routine", [("Routine", .routine)]),
    ("Include", [("Include", .include), ("IncludeFEA", .includeFeatures)]),
    ("Variables", [("Set", .assign)]),
    ("Arabic", [("InitMediFina", .joiningForms)]),
    ("Debug", [("ShowClass", .showClass), ("DumpClassNames", .listClassNames), ("DumpClasses", .listClasses)]),
    ("Delete", [("Delete", .delete)]),
    ("FontEngineering", [("SetWidth", .setWidth), ("SetCategory", .setCategory)]),
    ("IMatra", [("IMatra", .fitMatra)]),
    ("MedialRa", [("MedialRa", .fitMedial)]),
    ("KernToDistance", [("KernToDistance", .kernToDistance)]),
    ("LigatureFinder", [("LigatureFinder", .findLigatures)]),
    ("Swap", [("Swap", .swap)]),
    ("BariYe", [("BYMoveDots", .moveDots), ("BYFixOverhang", .fixOverhang)])]

def startingVerbs : List (String × Verb) := (plugins.take 11).flatMap (·.2)

def pluginHome : String := "fontFeatures.feeLib"

def otherModules : List String :=
  [pluginHome, pluginHome ++ ".util", pluginHome ++ ".AvoidCollision", pluginHome ++ ".__init__"] ++
    ["feaLib", "fontDameLib", "optimizer", "pathUtils", "shaperLib", "ttLib", "variableScalar", "voltLib",
      "xmlLib"].map ("fontFeatures." ++ ·)

def moduleName (name : String) : String :=
  if name.toList.contains '.' then name else pluginHome ++ "." ++ name

def Workshop.start (font : Font) (files : List (String × String) := []) : Workshop :=
  { font, files, verbs := startingVerbs
    book := { glyphClasses := (font.glyphs.filter (·.exported)).map fun g => (g.name, g.category) } }

namespace Craft

def loadPlugin (text : String) : Craft Unit := do
  let full := moduleName (← read (fun _ => Phrase.name) text)
  match plugins.find? fun p => pluginHome ++ "." ++ p.1 == full with
  | some (_, verbs) => modify fun w => { w with verbs := Dict.merge w.verbs verbs }
  | none =>
    if otherModules.contains full then warn ("Module " ++ full ++ " is not a FEE plugin")
    else throw .noModule

def assign (text : String) : Craft Unit := do
  let (name, number) ← read (fun _ => do
    let name ← Phrase.name
    Phrase.sign "="
    let number ← Phrase.numberText
    pure (name, number)) text
  modify fun w => { w with vars := Dict.set w.vars name number }

/-! ### Files -/

def beside (file : Option String) (name : String) : String :=
  match file.map fun f => (Text.split '/' f).dropLast with
  | some (d :: ds) => if name.toList.head? == some '/' then name else Text.join "/" ((d :: ds) ++ [name])
  | _ => name

def included (text : String) : Craft String := do
  let name ← read (fun _ => Phrase.quoted) text
  let w ← get
  ((Dict.get? w.files (beside w.file name)).or (Dict.get? w.files name)).elim (throw (.refused (.noInclude name))) pure

/-! ### Verbs -/

/-- The commands that make initial, medial and final forms by the ends of glyph names. -/
def joiningForms : String :=
  "DefineClass @inits = /init$/;
   DefineClass @medis = /medi$/;
   DefineClass @finas = /fina$/;
   Feature init \x7b Substitute @inits~init -> @inits; \x7d;
   Feature medi \x7b Substitute @medis~medi -> @medis; \x7d;
   Feature fina \x7b Substitute @finas~fina -> @finas; \x7d;"

/-- Run a command that leaves nothing. -/
def quietly (c : Craft Unit) : Craft (List Product) := do
  c
  return []

/-- Run a command that takes no arguments. -/
def bare (text : String) (c : Craft (List Product)) : Craft (List Product) := do
  read (fun _ => pure ()) text
  c

/-- Run a command without a block. `runText` runs other commands. -/
def perform (runText : String → Craft (List Product)) (v : Verb) (text : String) : Craft (List Product) :=
  match v with
  | .loadPlugin => quietly (loadPlugin text)
  | .defineClass => quietly (defineClass text)
  | .defineClassBinned => quietly (defineClassBinned text)
  | .condition | .feature | .routine => throw .ungrammatical
  | .featureName => do
    let _ ← read (fun _ => Phrase.quoted) text
    throw .wrongKind
  | .substitute => substitute text
  | .reverseSubstitute => reverseSubstitute text
  | .position => position text
  | .chain => chain text
  | .anchors => quietly (anchors text)
  | .attach => attach text
  | .loadAnchors => bare text (quietly loadAnchors)
  | .include => do runText (← included text)
  | .includeFeatures => do
    let _ ← included text
    throw .undefinedName
  | .assign => quietly (assign text)
  | .joiningForms => bare text (runText joiningForms)
  | .showClass => quietly (showClass text)
  | .listClassNames => bare text (quietly listClassNames)
  | .listClasses => bare text (quietly listClasses)
  | .delete => delete text
  | .setWidth => quietly (setWidth text)
  | .setCategory => quietly (setCategory text)
  | .fitMatra => fitMatra text
  | .fitMedial => fitMedial text
  | .kernToDistance => kernToDistance text
  | .findLigatures => findLigatures text
  | .swap => swap text
  | .moveDots => moveDots text
  | .fixOverhang => fixOverhang text

/-- Run a command with a block. Commands that take no arguments do not mind it; others find
something else than they look for. -/
def enclose (runText : String → Craft (List Product)) (v : Verb) (before after : String) (products : List Product) :
    Craft (List Product) :=
  match v with
  | .feature => feature before products
  | .routine => routine before after products
  | .condition => condition before products
  | .loadAnchors => quietly loadAnchors
  | .joiningForms => runText joiningForms
  | .listClassNames => quietly listClassNames
  | .listClasses => quietly listClasses
  | .substitute | .reverseSubstitute | .position | .chain | .attach | .featureName | .kernToDistance | .swap =>
    throw .wrongKind
  | .anchors | .include | .includeFeatures | .defineClass | .showClass | .moveDots | .fixOverhang => throw .badValue
  | .loadPlugin | .assign | .defineClassBinned | .delete | .setWidth | .setCategory | .fitMatra | .fitMedial
  | .findLigatures => throw .missingPart

mutual
def runStatement (runText : String → Craft (List Product)) : Statement → Craft (List Product)
  | .mk name before block after => do
    let products ← runAll runText block
    match Dict.get? (← get).verbs name with
    | none =>
      warn ("Unknown verb: " ++ name)
      return products
    | some v =>
      if block.isEmpty then perform runText v (Text.join " " (before ++ after))
      else enclose runText v (Text.join " " before) (Text.join " " after) products

def runAll (runText : String → Craft (List Product)) : List Statement → Craft (List Product)
  | [] => return []
  | s :: ss => do
    let products ← runStatement runText s
    return products ++ (← runAll runText ss)
end

/-- Run a text of commands; texts may include others so many levels deep. -/
def runTextWithin : Nat → String → Craft (List Product)
  | 0, _ => throw .endless
  | depth + 1, text => do runAll (runTextWithin depth) (← ofExcept (Source.read text))

def runText (text : String) : Craft Unit := do
  let _ ← runTextWithin 40 text

def runFile (name : String) : Craft Unit := do
  match Dict.get? (← get).files name with
  | none => throw .noFile
  | some text =>
    modify fun w => { w with file := some name }
    runText text

end Craft
end GlyphRules.Command
