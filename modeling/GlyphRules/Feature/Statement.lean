import GlyphRules.Rule.Basic

/-! Statements of a feature file.

A feature file is a tree of statements, and `Statement.render` the only place where one becomes
text. It fails where a statement has none: a call to a routine without a name, or fewer lists of
calls than glyphs. -/
namespace GlyphRules.Feature

inductive GlyphRef where
  | name (glyph : String)
  | members (glyphs : List String)
deriving DecidableEq

abbrev CallName := Option (Option String)

inductive Statement where
  | comment (text : String)
  | single (before input after output : List GlyphRef)
  | multiple (before : List GlyphRef) (glyph : GlyphRef) (after output : List GlyphRef)
  | alternate (before : List GlyphRef) (glyph : GlyphRef) (after : List GlyphRef) (output : GlyphRef)
  | ligature (before input after : List GlyphRef) (output : GlyphRef)
  | reverse (before input after output : List GlyphRef)
  | chain (stage : Stage) (before input after : List GlyphRef)
      (calls : List (Option (List CallName)))
  | ignore (before input after : List GlyphRef)
  | place (before : List GlyphRef) (entries : List (GlyphRef × Option ValueRecord))
      (after : List GlyphRef) (marked : Bool)
  | pair (first : GlyphRef) (firstValue : Option ValueRecord) (second : GlyphRef)
      (secondValue : Option ValueRecord)
  | cursive (glyph : GlyphRef) (entry exit : Option Point)
  | attach (toMark : Bool) (base : GlyphRef) (anchor : Point) (markClass : String)
  | markClass (glyphs : GlyphRef) (anchor : Point) (name : String)
  | glyphClass (name : String) (glyphs : GlyphRef)
  | categories (base ligature mark component : GlyphRef)
  | lookupFlag (flags : Flags) (attachment filter : Option String)
  | script (tag : String)
  | language (tag : String)
  | languageSystem (script language : String)
  | call (name : Option String)
  | block (body : List Statement)
  | lookup (name : String) (body : List Statement)
  | feature (tag : String) (body : List Statement)
  | table (tag : String) (body : List Statement)

/-! ### Text -/

/-- Words of the language; a glyph of that name is written with a backslash. -/
def keywords : List String :=
  ["anchor", "anchordef", "anon", "anonymous", "base", "by", "contour", "cursive", "device", "enum",
   "enumerate", "excludedflt", "exclude_dflt", "feature", "from", "ignore", "ignorebaseglyphs",
   "ignoreligatures", "ignoremarks", "include", "includedflt", "include_dflt", "language",
   "languagesystem", "lookup", "lookupflag", "mark", "markattachmenttype", "markclass", "nameid",
   "null", "parameters", "pos", "position", "required", "reversesub", "righttoleft", "rsub",
   "script", "sub", "substitute", "subtable", "table", "usemarkfilteringset", "useextension",
   "valuerecorddef", "gdef", "head", "hhea", "name", "vhea", "vmtx"]

def glyphText (g : String) : String := if keywords.contains g.toLower then "\\" ++ g else g

def GlyphRef.text : GlyphRef → String
  | .name g => glyphText g
  | .members gs => "[" ++ Text.join " " (gs.map glyphText) ++ "]"

def texts (gs : List GlyphRef) : String := Text.join " " (gs.map GlyphRef.text)

def inContext (before : List GlyphRef) (marked : String) (after : List GlyphRef) : String :=
  (if before.isEmpty then "" else texts before ++ " ") ++ marked ++
    (if after.isEmpty then "" else " " ++ texts after)

def maybeMarked (before input after : List GlyphRef) : String :=
  if before.isEmpty && after.isEmpty then texts input
  else inContext before (Text.join " " (input.map fun g => g.text ++ "'")) after

def valueText (v : ValueRecord) : String :=
  if !v.isSet then "<NULL>"
  else
    match v.vertical, v.xPlacement, v.yPlacement, v.xAdvance, v.yAdvance with
    | false, none, none, some a, none => a.text
    | true, none, none, none, some b => b.text
    | _, x, y, a, b =>
      let shown (s : Option Scalar) : String :=
        match s with
        | some s => if s.counts then s.text else "0"
        | none => "0"
      "<" ++ shown x ++ " " ++ shown y ++ " " ++ shown a ++ " " ++ shown b ++ ">"

def anchorText (p : Point) : String := "<anchor " ++ p.1.text ++ " " ++ p.2.text ++ ">"

def present (v : Option ValueRecord) : Option ValueRecord := v.filter (·.isSet)

def flagWords (flags : Flags) : Except Fault (List String) := do
  let words := [(1, "RightToLeft"), (2, "IgnoreBaseGlyphs"), (4, "IgnoreLigatures"), (8, "IgnoreMarks")]
  let set ← words.filterM fun (bit, _) => flags.test bit
  return set.map (·.2)

def chainText : List GlyphRef → List (Option (List CallName)) → Except Fault String
  | [], _ => .ok ""
  | _ :: _, [] => .error .outOfRange
  | g :: gs, c :: cs => do
    let names ← (c.getD []).mapM fun
      | none => .error Fault.missingPart
      | some none => .error Fault.wrongKind
      | some (some n) => .ok (" lookup " ++ n)
    let rest ← chainText gs cs
    return g.text ++ "'" ++ String.join names ++ (if gs.isEmpty then "" else " ") ++ rest

mutual
def Statement.render (indent : String) : Statement → Except Fault String
  | .comment t => .ok t
  | .single before input after output =>
    .ok ("sub " ++ maybeMarked before input after ++ " by " ++ texts output ++ ";")
  | .multiple before glyph after output =>
    .ok ("sub " ++ maybeMarked before [glyph] after ++ " by " ++
      (if output.isEmpty then "NULL" else texts output) ++ ";")
  | .alternate before glyph after output =>
    .ok ("sub " ++ maybeMarked before [glyph] after ++ " from " ++ output.text ++ ";")
  | .ligature before input after output =>
    .ok ("sub " ++ maybeMarked before input after ++ " by " ++ output.text ++ ";")
  | .reverse before input after output =>
    .ok ("rsub " ++ maybeMarked before input after ++ " by " ++ texts output ++ ";")
  | .chain stage before input after calls => do
    if before.isEmpty && after.isEmpty && !calls.any (·.isSome) then throw .missingPart
    let marked ← chainText input calls
    return stage.name ++ " " ++ inContext before marked after ++ ";"
  | .ignore before input after =>
    .ok ("ignore sub " ++ inContext before (Text.join " " (input.map fun g => g.text ++ "'")) after ++ ";")
  | .place before entries after marked =>
    if !before.isEmpty || !after.isEmpty || marked then
      let shown := entries.map fun (g, v) =>
        g.text ++ "'" ++ ((present v).map fun v => " " ++ valueText v).getD ""
      .ok ("pos " ++ inContext before (Text.join " " shown) after ++ ";")
    else
      let shown := entries.map fun (g, v) => g.text ++ " " ++ ((present v).map valueText).getD ""
      .ok ("pos " ++ Text.join " " shown ++ ";")
  | .pair first v1 second v2 =>
    match v1, present v2 with
    | none, _ => .error .missingPart
    | some v1, some v2 =>
      .ok ("pos " ++ first.text ++ " " ++ valueText v1 ++ " " ++ second.text ++ " " ++ valueText v2 ++ ";")
    | some v1, none => .ok ("pos " ++ first.text ++ " " ++ second.text ++ " " ++ valueText v1 ++ ";")
  | .cursive glyph entry exit =>
    let shown (p : Option Point) : String := (p.map anchorText).getD "<anchor NULL>"
    .ok ("pos cursive " ++ glyph.text ++ " " ++ shown entry ++ " " ++ shown exit ++ ";")
  | .attach toMark base anchor markClass =>
    .ok ((if toMark then "pos mark " else "pos base ") ++ base.text ++ "\n" ++ indent ++ "    " ++
      anchorText anchor ++ " mark @" ++ markClass ++ ";")
  | .markClass glyphs anchor name =>
    .ok ("markClass " ++ glyphs.text ++ " " ++ anchorText anchor ++ " @" ++ name ++ ";")
  | .glyphClass name glyphs =>
    if name == nameless then .error .wrongKind else .ok ("@" ++ name ++ " = " ++ glyphs.text ++ ";")
  | .categories base ligature mark component =>
    .ok ("GlyphClassDef " ++ Text.join ", " [base.text, ligature.text, mark.text, component.text] ++ ";")
  | .lookupFlag flags attachment filter => do
    let words ← flagWords flags
    let words := words ++ (attachment.map ("MarkAttachmentType @" ++ ·)).toList ++
      (filter.map ("UseMarkFilteringSet @" ++ ·)).toList
    return "lookupflag " ++ (if words.isEmpty then "0" else Text.join " " words) ++ ";"
  | .script tag => .ok ("script " ++ Text.strip tag ++ ";")
  | .language tag => .ok ("language " ++ Text.strip tag ++ ";")
  | .languageSystem s l => .ok ("languagesystem " ++ s ++ " " ++ Text.strip l ++ ";")
  | .call name =>
    match name with
    | none => .error .missingPart
    | some n => .ok ("lookup " ++ n ++ ";")
  | .block body => renderBody indent body
  | .lookup name body => do
    return "lookup " ++ name ++ " \x7b\n" ++ (← renderBody indent body) ++ indent ++ "\x7d " ++ name ++ ";\n"
  | .feature tag body => do
    return indent ++ "feature " ++ Text.strip tag ++ " \x7b\n" ++ (← renderBody indent body) ++ indent ++
      "\x7d " ++ Text.strip tag ++ ";\n"
  | .table tag body => do
    return "table " ++ Text.strip tag ++ " \x7b\n" ++ (← renderBody indent body) ++ "\x7d " ++
      Text.strip tag ++ ";\n"

def renderBody (indent : String) (body : List Statement) : Except Fault String := do
  let inner := indent ++ "    "
  return inner ++ Text.join ("\n" ++ inner) (← renderAll inner body) ++ "\n"

def renderAll (indent : String) : List Statement → Except Fault (List String)
  | [] => .ok []
  | s :: rest => do return (← s.render indent) :: (← renderAll indent rest)
end

/-! ### Cursive lines

The entries of a cursive rule have no order. Each run of lines that place cursive glyphs is written
in the order of its texts, every place keeping its indentation. -/

def isCursiveLine (line : String) : Bool := Text.hasStart "pos cursive " (Text.strip line)

def indentOf (line : String) : String := String.ofList (line.toList.takeWhile Text.isBlank)

/-- Sort each run of cursive lines; `run` holds the lines of the run so far, last first. -/
def sortRuns : List String → List String → List String
  | run, [] => close run
  | run, line :: rest =>
    if isCursiveLine line then sortRuns (line :: run) rest else close run ++ line :: sortRuns [] rest
where
  close (run : List String) : List String :=
    let lines := run.reverse
    List.zipWith (fun line text => indentOf line ++ text) lines (Text.sort (lines.map Text.strip))

def sortCursive (text : String) : String :=
  Text.join "\n" (sortRuns [] (Text.split '\n' text))

/-! ### Missing names -/

def GlyphRef.lacksName : GlyphRef → Bool
  | .name g => g == nameless
  | .members gs => gs.contains nameless

mutual
def Statement.lacksName : Statement → Bool
  | .single before input after output | .reverse before input after output =>
    (before ++ input ++ after ++ output).any GlyphRef.lacksName
  | .multiple before glyph after output => (before ++ glyph :: after ++ output).any GlyphRef.lacksName
  | .alternate before glyph after output => (before ++ glyph :: after ++ [output]).any GlyphRef.lacksName
  | .ligature before input after output => (before ++ input ++ after ++ [output]).any GlyphRef.lacksName
  | .chain _ before input after _ | .ignore before input after =>
    (before ++ input ++ after).any GlyphRef.lacksName
  | .place before entries after _ => (before ++ entries.map (·.1) ++ after).any GlyphRef.lacksName
  | .pair first _ second _ => first.lacksName || second.lacksName
  | .cursive glyph _ _ | .attach _ glyph _ _ | .markClass glyph _ _ | .glyphClass _ glyph => glyph.lacksName
  | .categories base ligature mark component =>
    [base, ligature, mark, component].any GlyphRef.lacksName
  | .feature tag body => tag == nameless || anyLacksName body
  | .block body | .lookup _ body | .table _ body => anyLacksName body
  | .comment _ | .lookupFlag .. | .script _ | .language _ | .languageSystem .. | .call _ => false

def anyLacksName : List Statement → Bool
  | [] => false
  | s :: rest => s.lacksName || anyLacksName rest
end

def Statement.text (s : Statement) : Except Fault String := do
  let text ← s.render ""
  if s.lacksName then throw .missingPart
  return sortCursive text

def fileText (body : List Statement) : Except Fault String := do
  let texts ← renderAll "" body
  if anyLacksName body then throw .missingPart
  return sortCursive (Text.join "\n" texts)

end GlyphRules.Feature
