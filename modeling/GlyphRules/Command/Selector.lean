import GlyphRules.Book.Basic
import GlyphRules.Text.Regex.Reader

/-! Selectors: how commands name glyphs.

A selector is a name, a named class, a pattern, a character, a range of characters or a bracketed
list of such. Suffixes are put to or taken from its names. Glyphs that the font does not export are
dropped, with a note. -/
namespace GlyphRules.Command

/-- Where a selector stands in the arguments of its command. A bracketed list has no place of
its own, and a selector that was not written has none at all. -/
inductive Whereabouts where
  | at (line column : Nat)
  | inside
  | unwritten
deriving DecidableEq

def Whereabouts.text : Whereabouts → String
  | .at line column => Text.parenthesised [toString line, toString column]
  | .inside => "(None, None)"
  | .unwritten => "None"

/-- A change of a name: a part put to its end, or taken from it. -/
inductive Suffix where
  | added (part : String)
  | removed (part : String)
deriving DecidableEq

namespace Suffix

def text : Suffix → String
  | added part => "." ++ part
  | removed part => "~" ++ part

def apply (s : Suffix) (name : String) : String :=
  match s with
  | added part => name ++ "." ++ part
  | removed part =>
    let tail := "." ++ part
    if Text.hasEnd tail name then String.ofList (name.toList.take (name.length - tail.length)) else name

end Suffix

inductive Selector where
  | name (glyph : String)
  | named (cls : String)
  | pattern (regex : String)
  | character (code : Nat)
  /-- The characters from the first on, before the second. -/
  | range (first past : Nat)
  | group (members : List Selector)
  /-- Something that is no selector, as it is shown. -/
  | unknown (shown : String)

structure Selection where
  selector : Selector
  suffixes : List Suffix := []
  place : Whereabouts := .at 1 1

abbrev Noted := Step (List String)

namespace Selector

mutual
def text : Selector → Except Fault String
  | name glyph => .ok glyph
  | named cls => .ok ("@" ++ cls)
  | pattern regex => .ok ("/" ++ regex ++ "/")
  | character code => .ok ("U+" ++ Text.hex4 code)
  | range _ _ => .error .wrongKind
  | group members => do return "[" ++ Text.join " " (← texts members) ++ "]"
  | unknown shown => .error (.refused (.unknownSelector shown))

def texts : List Selector → Except Fault (List String)
  | [] => .ok []
  | s :: ss => do return (← s.text) :: (← texts ss)
end

end Selector

namespace Selection

def text (s : Selection) : Except Fault String := do
  return s.suffixes.foldl (fun t x => t ++ x.text) (← s.selector.text)

def shown (s : Selection) : Except Fault String := do return "GlyphSelector<" ++ (← s.text) ++ ">"

end Selection

def suffixed (suffixes : List Suffix) (names : List String) : List String :=
  suffixes.foldl (fun ns x => ns.map x.apply) names

def keepExported (font : Font) (s : Selection) (names : List String) : Noted (List String) := do
  let missing := names.filter fun g => !font.exported.contains g
  if !missing.isEmpty then
    let text ← ofExcept s.text
    modify (· ++ ["# Couldn't find glyph" ++ (if missing.length > 1 then "s" else "") ++ " '" ++ Text.join ", " missing ++
      "' in font (" ++ text ++ " at " ++ s.place.text ++ ")"])
  return names.filter font.exported.contains

def glyphOfCharacter (font : Font) (place : Whereabouts) (code : Nat) : Except Fault String :=
  if font.glyphs.isEmpty then .error .outOfRange
  else
    match font.glyphFor? code with
    | some g => .ok g
    | none => .error (.refused (.noCodepointGlyph (Text.hex4 code) place.text))

mutual
/-- The names that a selector gives, before suffixes; the parts of a list or a range must exist
in the font. -/
def Selector.find (classes : List (String × List String)) (font : Font) (place : Whereabouts) :
    Selector → Noted (List String)
  | .name glyph => return [glyph]
  | .named cls =>
    match Dict.get? classes cls with
    | some members => return members
    | none => throw (.refused (.noClass cls place.text))
  | .pattern regex =>
    match Text.Regex.read regex with
    | .ok r => return font.exported.filter r.search
    | .error _ => throw (.refused (.badPattern regex place.text))
  | .character code => do return [← ofExcept (glyphOfCharacter font place code)]
  | .range first past => do
    let found ← (List.range' first (past - first)).mapM fun code => do
      let g ← ofExcept (glyphOfCharacter font place code)
      keepExported font { selector := .character code, place } [g]
    return found.flatten
  | .group members => Selector.findAll classes font place members
  | .unknown _ => return []

def Selector.findAll (classes : List (String × List String)) (font : Font) (place : Whereabouts) :
    List Selector → Noted (List String)
  | [] => return []
  | s :: ss => do
    let found ← keepExported font { selector := s, place } (← s.find classes font place)
    return found ++ (← Selector.findAll classes font place ss)
end

def Selection.resolve (classes : List (String × List String)) (font : Font) (s : Selection)
    (mustExist : Bool := true) : Noted (List String) := do
  let names := suffixed s.suffixes (← s.selector.find classes font s.place)
  if mustExist then keepExported font s names else return names

end GlyphRules.Command
