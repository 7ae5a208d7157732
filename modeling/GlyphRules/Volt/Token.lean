import GlyphRules.Fault
import GlyphRules.Text.Basic

/-! The tokens of a VOLT project.

A project is made of names, quoted texts and whole numbers. The word `END` closes it, and
what follows is not looked at. -/
namespace GlyphRules.Volt

inductive Token where
  | name (word : String)
  | quoted (text : String)
  | number (n : Int)
deriving DecidableEq

def Token.word? : Token → Option String
  | .name w => some w
  | .quoted t => some t
  | .number _ => none

def Token.finish : Token := .name "END"

def isNameStart (c : Char) : Bool := c.isAlpha || c == '.' || c == '_'

def isNamePart (c : Char) : Bool := isNameStart c || c.isDigit

def Token.first? : List Char → Option (Token × List Char)
  | [] => none
  | c :: cs =>
    if c == '"' then
      let text := cs.takeWhile fun d => d != '"' && d != '\r' && d != '\n'
      match cs.drop text.length with
      | '"' :: rest => some (.quoted (String.ofList text), rest)
      | _ => none
    else if isNameStart c then
      some (.name (String.ofList (c :: cs.takeWhile isNamePart)), cs.dropWhile isNamePart)
    else if c.isDigit then
      some (.number (Text.valueOf 10 (c :: cs.takeWhile Char.isDigit)), cs.dropWhile Char.isDigit)
    else if c == '-' && (cs.head?.map Char.isDigit).getD false then
      some (.number (-(Text.valueOf 10 (cs.takeWhile Char.isDigit) : Int)), cs.dropWhile Char.isDigit)
    else none

/-- The tokens of a text up to its closing word, and whether something that is no token
comes after them. There are no more tokens than characters. -/
def Token.scan : Nat → List Char → List Token × Bool
  | 0, _ => ([], false)
  | fuel + 1, cs =>
    match cs.dropWhile Text.isSpace with
    | [] => ([], false)
    | cs =>
      match Token.first? cs with
      | none => ([], true)
      | some (t, rest) =>
        if t == Token.finish then ([t], false)
        else
          let (ts, broken) := Token.scan fuel rest
          (t :: ts, broken)

def Token.ofText (text : String) : List Token × Bool :=
  let cs := text.toList
  Token.scan (cs.length + 1) cs

end GlyphRules.Volt
