import GlyphRules.Text.Basic

/-! Text shown between quotes.

A shown text stands in single quotes, or in double ones when it holds a single quote and no double
one. Control characters, the backslash and the quote in use are escaped. Lists and pairs have
brackets and commas. -/
namespace GlyphRules.Text

/-- How a character is written between the given quotes. -/
def escapeChar (quote c : Char) : List Char :=
  if c == quote then ['\\', c]
  else if c == '\\' then ['\\', '\\']
  else if c == '\n' then ['\\', 'n']
  else if c == '\r' then ['\\', 'r']
  else if c == '\t' then ['\\', 't']
  else if c.toNat < 32 || (127 ≤ c.toNat && c.toNat ≤ 160) || c.toNat == 173 then
    ['\\', 'x'] ++ (padLeft '0' 2 (String.ofList ((digits 16 c.toNat).map Char.toLower))).toList
  else [c]

def quoted (s : String) : String :=
  let cs := s.toList
  let quote := if cs.contains '\'' && !cs.contains '"' then '"' else '\''
  String.ofList ([quote] ++ cs.flatMap (escapeChar quote) ++ [quote])

def bracketed (shown : List String) : String := "[" ++ join ", " shown ++ "]"

/-- A tuple of shown things: one alone keeps its comma. -/
def parenthesised : List String → String
  | [a] => "(" ++ a ++ ",)"
  | l => "(" ++ join ", " l ++ ")"

def quotedList (l : List String) : String := bracketed (l.map quoted)

end GlyphRules.Text
