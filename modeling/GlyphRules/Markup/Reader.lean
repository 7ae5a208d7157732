import GlyphRules.Markup.Tree

/-! Reading markup.

The reader goes through the text once. It keeps the open elements on a stack, innermost first; each
collects its text, up to its first child, and its finished children. -/
namespace GlyphRules.Markup

open Text (isSpace)

/-- An element whose end has not been met. -/
structure Open where
  tag : String
  attributes : List (String × String)
  text : Option String := none
  children : List Node := []

def isNameStart (c : Char) : Bool := c.isAlpha || c == '_' || c == ':' || c.toNat ≥ 128

def isNameChar (c : Char) : Bool := isNameStart c || c.isDigit || c == '-' || c == '.'

def readName? : List Char → Option (String × List Char)
  | [] => none
  | c :: cs =>
    if isNameStart c then some (String.ofList (c :: cs.takeWhile isNameChar), cs.dropWhile isNameChar)
    else none

def upTo? (mark : List Char) : List Char → Option (List Char × List Char)
  | [] => if mark.isEmpty then some ([], []) else none
  | c :: cs =>
    match Text.dropStart? mark (c :: cs) with
    | some rest => some ([], rest)
    | none => (upTo? mark cs).map fun (a, rest) => (c :: a, rest)

def entity? (name : List Char) : Option Char :=
  match name with
  | ['a', 'm', 'p'] => some '&'
  | ['l', 't'] => some '<'
  | ['g', 't'] => some '>'
  | ['q', 'u', 'o', 't'] => some '"'
  | ['a', 'p', 'o', 's'] => some '\''
  | '#' :: 'x' :: digits => character? 16 Text.isHex digits
  | '#' :: digits => character? 10 Char.isDigit digits
  | _ => none
where
  character? (base : Nat) (isDigit : Char → Bool) (digits : List Char) : Option Char :=
    let n := Text.valueOf base digits
    let c := Char.ofNat n
    if !digits.isEmpty && digits.all isDigit && c.toNat == n && isAllowed (String.ofList [c]) then some c else none

def unescape : Nat → List Char → Option (List Char)
  | 0, _ => none
  | _, [] => some []
  | fuel + 1, '&' :: cs => do
    let (name, rest) ← upTo? [';'] cs
    let c ← entity? name
    return c :: (← unescape fuel rest)
  | _, '<' :: _ => none
  | fuel + 1, c :: cs => do
    if isAllowed (String.ofList [c]) then return c :: (← unescape fuel cs) else none

def unescaped (cs : List Char) : Option String := (unescape (cs.length + 1) cs).map String.ofList

def readAttributes : Nat → List (String × String) → List Char → Option (List (String × String) × List Char)
  | 0, _, _ => none
  | fuel + 1, done, cs =>
    let rest := cs.dropWhile isSpace
    match rest with
    | [] => none
    | '>' :: _ => some (done, rest)
    | '/' :: _ => some (done, rest)
    | '?' :: _ => some (done, rest)
    | _ => do
      if rest.length == cs.length then none
      let (name, rest) ← readName? rest
      match rest.dropWhile isSpace with
      | '=' :: rest =>
        match rest.dropWhile isSpace with
        | q :: rest =>
          if q == '"' || q == '\'' then do
            let (value, rest) ← upTo? [q] rest
            let value ← unescaped (value.map fun c => if isSpace c then ' ' else c)
            if done.any (·.1 == name) then none
            else readAttributes fuel (done ++ [(name, value)]) rest
          else none
        | [] => none
      | _ => none

/-- Add text to the innermost open element, if it has no child yet. -/
def addText (s : String) : List Open → List Open
  | [] => []
  | o :: os => if o.children.isEmpty && !s.isEmpty then { o with text := some (o.text.getD "" ++ s) } :: os else o :: os

/-- Put a finished node into the innermost open element. -/
def addChild (n : Node) : List Open → List Open
  | [] => []
  | o :: os => { o with children := o.children ++ [n] } :: os

def Open.close (o : Open) : Node := .element o.tag o.attributes o.text o.children

/-- The rest of the document after the root: only blanks and comments. -/
def onlyTrailing : Nat → List Char → Bool
  | 0, _ => false
  | fuel + 1, cs =>
    match cs.dropWhile isSpace with
    | [] => true
    | '<' :: '!' :: '-' :: '-' :: rest =>
      match upTo? ['-', '-', '>'] rest with
      | some (_, rest) => onlyTrailing fuel rest
      | none => false
    | '<' :: '?' :: rest =>
      match upTo? ['?', '>'] rest with
      | some (_, rest) => onlyTrailing fuel rest
      | none => false
    | _ => false

def readOn : Nat → List Open → List Char → Option Node
  | 0, _, _ => none
  | _, _, [] => none
  | fuel + 1, stack, '<' :: '!' :: '-' :: '-' :: rest => do
    let (text, rest) ← upTo? ['-', '-', '>'] rest
    if Text.occursIn ['-', '-'] text then none
    readOn fuel (addChild (.comment (String.ofList text)) stack) rest
  | fuel + 1, stack, '<' :: '!' :: '[' :: 'C' :: 'D' :: 'A' :: 'T' :: 'A' :: '[' :: rest => do
    if stack.isEmpty then none
    let (text, rest) ← upTo? [']', ']', '>'] rest
    readOn fuel (addText (String.ofList text) stack) rest
  | fuel + 1, stack, '<' :: '!' :: 'D' :: 'O' :: 'C' :: 'T' :: 'Y' :: 'P' :: 'E' :: rest => do
    if !stack.isEmpty then none
    let (_, rest) ← upTo? ['>'] rest
    readOn fuel stack rest
  | fuel + 1, stack, '<' :: '?' :: rest => do
    let (_, rest) ← upTo? ['?', '>'] rest
    readOn fuel (addChild (.comment "") stack) rest
  | fuel + 1, stack, '<' :: '/' :: rest => do
    let (name, rest) ← readName? rest
    match rest.dropWhile isSpace, stack with
    | '>' :: rest, o :: os =>
      if o.tag != name then none
      else if os.isEmpty then if onlyTrailing (rest.length + 1) rest then some o.close else none
      else readOn fuel (addChild o.close os) rest
    | _, _ => none
  | fuel + 1, stack, '<' :: rest => do
    let (name, rest) ← readName? rest
    let (attributes, rest) ← readAttributes (rest.length + 1) [] rest
    match rest with
    | '>' :: rest => readOn fuel ({ tag := name, attributes } :: stack) rest
    | '/' :: '>' :: rest =>
      let n := Node.element name attributes none []
      if stack.isEmpty then if onlyTrailing (rest.length + 1) rest then some n else none
      else readOn fuel (addChild n stack) rest
    | _ => none
  | fuel + 1, stack, cs => do
    let text := cs.takeWhile (· != '<')
    let rest := cs.dropWhile (· != '<')
    if Text.occursIn [']', ']', '>'] text then none
    let s ← unescaped text
    if stack.isEmpty then
      if text.all isSpace then readOn fuel stack rest else none
    else readOn fuel (addText s stack) rest

def plainLineEnds : List Char → List Char
  | '\r' :: '\n' :: cs => '\n' :: plainLineEnds cs
  | '\r' :: cs => '\n' :: plainLineEnds cs
  | c :: cs => c :: plainLineEnds cs
  | [] => []

def parse (s : String) : Except Fault Node :=
  let cs := plainLineEnds s.toList
  (readOn (2 * cs.length + 2) [] cs).elim (.error .unreadableMarkup) .ok

end GlyphRules.Markup
