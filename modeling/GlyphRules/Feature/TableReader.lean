import GlyphRules.Feature.Reading

/-! The names and tables of a feature file.

None of them becomes a rule. They are checked for their form; a table is then of no consequence or
foreign to a book of rules. -/
namespace GlyphRules.Feature.Read

/-! ### Names -/

def nameEncodings : Int → List Int
  | 1 => [0, 1, 2, 3, 6, 7, 25, 29, 35, 37]
  | 3 => [0, 1, 2, 3, 4, 5, 6, 10]
  | _ => []

/-- A name: platform, encoding and language may come before the text. -/
def nameText : Read Unit := do
  let isNumber : Read Bool := do
    match (← get).ahead with
    | some (.number _) | some (.code _) => return true
    | _ => return false
  if ← isNumber then
    let known := nameEncodings (← expectAnyNumber)
    if known.isEmpty then refuse
    if ← isNumber then
      let encoding ← expectAnyNumber
      let _ ← expectAnyNumber
      if !known.contains encoding then refuse
  let _ ← expectQuoted

def nameRecord : Read Unit := do
  nameText
  expectSymbol ';'

def featureNames : Read Unit := do
  let _ ← braced do
    if ← isCurrent "name" then nameRecord else refuse
  expectSymbol ';'

def variantParameters : Read Bool := do
  let found ← braced do
    if ← isCurrent "Character" then
      let n ← expectAnyNumber
      expectSymbol ';'
      if n < 0 || n > 0xFFFFFF then refuse
      return true
    else
      let named ← ["FeatUILabelNameID", "FeatUITooltipTextNameID", "SampleTextNameID"].anyM isCurrent
      let labelled ← isCurrent "ParamUILabelNameID"
      if !named && !labelled then refuse
      let names ← braced do
        if ← isCurrent "name" then nameRecord else refuse
      expectSymbol ';'
      return labelled || !names.isEmpty
  expectSymbol ';'
  return found.any id

/-- The design size of a font and the range it is meant for. -/
def sizeParameters : Read Unit := do
  let _ ← expectMeasure
  let subfamily ← expectNumber
  let more := match (← get).ahead with
    | some (.number _) | some (.decimal _) => true
    | _ => false
  if more || subfamily != 0 then
    let _ ← expectMeasure
    let _ ← expectMeasure
  expectSymbol ';'

/-! ### Baselines -/

def baselineTags : Read Nat := do
  let tags ← upTo [";"] expectScript
  expectSymbol ';'
  return tags.length

/-- The baselines of each script: the usual one, and a coordinate for each. They must have
been named before. -/
def baselineScripts (count : Option Nat) : Read Unit := do
  let some count := count | throw .unsetName
  let record : Read Unit := do
    let _ ← expectScript
    let _ ← expectScript
    for _ in List.range count do
      let _ ← expectNumber
  record
  let _ ← whileAhead "," (do expectSymbol ','; record)
  expectSymbol ';'

/-- The statements of a table of baselines, given the number of baselines named so far for
each direction; whether any script has some. Other words are passed over. -/
def baselines : Nat → Option Nat → Option Nat → Read Bool
  | 0, _, _ => throw .unfinished
  | n + 1, across, down => do
    if ← aheadIs "\x7d" then return false
    advance
    match (← get).current with
    | none => throw .unfinished
    | some (.name "HorizAxis.BaseTagList") => baselines n (some (← baselineTags)) down
    | some (.name "VertAxis.BaseTagList") => baselines n across (some (← baselineTags))
    | some (.name "HorizAxis.BaseScriptList") =>
      baselineScripts across
      let _ ← baselines n across down
      return true
    | some (.name "VertAxis.BaseScriptList") =>
      baselineScripts down
      let _ ← baselines n across down
      return true
    | _ => baselines n across down

/-! ### Styles -/

inductive AxisPart where
  | name
  | location (axis : String) (size : Nat)
  | flag
deriving DecidableEq

/-- Whether one number, in units of its last place, is less than another. -/
def measureLess (a b : Int × Nat) : Bool := a.1 * Int.ofNat (Nat.pow 10 b.2) < b.1 * Int.ofNat (Nat.pow 10 a.2)

def axisPart : Read AxisPart := do
  if ← isCurrent "name" then
    nameText
    return .name
  if ← isCurrent "location" then
    let axis ← expectTag
    if (Text.strip axis).length != 4 then refuse
    let values ← upTo [";"] expectMeasure
    if let [nominal, low, high] := values then
      if measureLess nominal low || measureLess high nominal then refuse
    return .location axis values.length
  if ← isCurrent "flag" then
    let _ ← upTo [";"] do
      let word ← expectName
      if !(["OlderSiblingFontAttribute", "ElidableAxisValueName"].contains word) then refuse
    return .flag
  refuse

/-- The axes of an axis value. It has a name and a location; several locations lie on
different axes and have one number each. -/
def axisValue : Read (List String) := do
  let parts ← braced axisPart
  let places := parts.filterMap fun
    | .location axis size => some (axis, size)
    | _ => none
  if !parts.contains .name || places.isEmpty then refuse
  if places.length > 1 && (places.any (·.2 > 1) || hasRepeats (places.map (·.1))) then refuse
  return places.map (·.1)

/-- Names in curly brackets; how many there are. -/
def namesBlock : Read Nat := do
  let found ← braced do
    if ← isCurrent "name" then nameText else refuse
  return found.length

/-- A statement of a table of styles: the axes that it defines and those that it uses. -/
def styleStatement : Read (Option (List String × List String)) := do
  match (← get).current with
  | none => throw .unfinished
  | some (.name "ElidedFallbackName") =>
    if (← namesBlock) == 0 then refuse
    return some ([], [])
  | some (.name "ElidedFallbackNameID") =>
    let _ ← expectNumber
    expectSymbol ';'
    return some ([], [])
  | some (.name "DesignAxis") =>
    let axis ← expectTag
    let _ ← expectNumber
    let _ ← namesBlock
    expectSymbol ';'
    return some ([axis], [])
  | some (.name "AxisValue") =>
    let axes ← axisValue
    expectSymbol ';'
    return some ([], axes)
  | some (.name _) => refuse
  | some _ => return none

/-- Whether every axis is defined before it is used. -/
def axesDefined : List String → List (List String × List String) → Bool
  | _, [] => true
  | known, (defined, used) :: rest => used.all known.contains && axesDefined (known ++ defined) rest

/-! ### Tables -/

/-- One statement of a table, whose first word has been taken; whether it is of consequence. -/
def tableStatement (table : String) : Read Bool := do
  let isOne (words : List String) : Read Bool := words.anyM isCurrent
  let number : Read Unit := do let _ ← expectNumber
  let numbers : Read Unit := do let _ ← upTo [";"] number
  match table with
  | "head" =>
    if !(← isOne ["FontRevision"]) then refuse
    let (units, _) := decimalUnits (← expectDecimal)
    expectSymbol ';'
    if units ≤ 0 then refuse
    return false
  | "name" =>
    if !(← isOne ["nameid"]) then refuse
    if (← expectAnyNumber) > 32767 then refuse
    nameRecord
    return false
  | "hhea" | "vhea" =>
    let fields := if table == "hhea" then ["CaretOffset", "Ascender", "Descender", "LineGap"]
      else ["VertTypoAscender", "VertTypoDescender", "VertTypoLineGap"]
    if !(← isOne fields) then refuse
    number
    if !(← aheadIs ";") then refuse
    return true
  | "GDEF" =>
    if ← isOne ["Attach", "LigatureCaretByPos", "LigatureCaretByIndex"] then
      let _ ← glyphOrClass
      number
      numbers
      expectSymbol ';'
      return true
    if !(← isOne ["GlyphClassDef"]) then refuse
    for _ in [0, 1, 2] do
      if !(← aheadIs ",") then
        let _ ← glyphClass
      expectSymbol ','
    if !(← aheadIs ";") then
      let _ ← glyphClass
    expectSymbol ';'
    return true
  | _ =>
    match (← get).current with
    | none => throw .unfinished
    | some (.name _) =>
      if ← isOne ["FSType", "TypoAscender", "TypoDescender", "TypoLineGap", "winAscent", "winDescent",
          "XHeight", "CapHeight", "WeightClass", "WidthClass", "LowerOpSize", "UpperOpSize"] then number
      else if ← isOne ["Panose"] then
        for _ in List.range 10 do number
      else if ← isOne ["UnicodeRange", "CodePageRange"] then numbers
      else if ← isOne ["Vendor"] then
        let _ ← expectQuoted
      return true
    | some _ => return false

/-- The statements of a table in curly brackets; whether any is of consequence. -/
def tableBody (name : String) : Read Bool := do
  match name with
  | "GDEF" | "head" | "hhea" | "vhea" | "name" | "OS/2" => return (← braced (tableStatement name)).any id
  | "BASE" =>
    expectSymbol '\x7b'
    let found ← baselines (← enough) none none
    expectSymbol '\x7d'
    return found
  | "STAT" =>
    let found := (← braced styleStatement).filterMap id
    if !axesDefined [] found then refuse
    return !found.isEmpty
  | _ => refuse

def table : Read (List Entry) := do
  let name ← expectTag
  let isForeign ← tableBody name
  if (← expectTag) != name then refuse
  expectSymbol ';'
  return if isForeign then [.foreign] else []

/-! ### Conditions -/

/-- The range of each axis for which something holds. A limit that is left out is that of
the axis before. -/
def conditionSet : Read Unit := do
  let name ← expectName
  let measured : Read Bool := do
    match (← get).ahead with
    | some (.number _) | some (.decimal _) => advance; return true
    | _ => return false
  let axis (isFirst : Bool) : Read String := do
    let axis ← expectName
    let low ← measured
    let high ← measured
    expectSymbol ';'
    if isFirst && !(low && high) then throw .unsetName
    return axis
  expectSymbol '\x7b'
  let axes ← if ← aheadIs "\x7d" then pure [] else do
    let first ← axis true
    let more ← upTo ["\x7d"] (axis false)
    pure (first :: more)
  if hasRepeats axes then refuse
  expectSymbol '\x7d'
  if (← expectName) != name then refuse

end GlyphRules.Feature.Read
