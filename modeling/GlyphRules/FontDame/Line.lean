import GlyphRules.Rule.Basic
import GlyphRules.Text.Regex.Basic
import GlyphRules.Number.Reader

/-! The lines of a FontDame listing, one reader for each kind of line.

Lines are given with their line end. A reader looks at the start of a line only, unless
it says that the line end has to follow. -/
namespace GlyphRules.FontDame

abbrev Chars := List Char

def isWord (c : Char) : Bool := Text.Regex.isWordChar c

def isName (c : Char) : Bool := isWord c || c == '.' || c == '-'

def run? (f : Char → Bool) (cs : Chars) : Option (Chars × Chars) :=
  match cs.takeWhile f with
  | [] => none
  | w => some (w, cs.drop w.length)

def afterBlanks? (cs : Chars) : Option Chars := (run? Text.isBlank cs).map (·.2)

def restOfLine (cs : Chars) : Chars := cs.takeWhile (· != '\n')

def beforeEnd? (cs : Chars) : Option Chars :=
  let w := restOfLine cs
  if w.length < cs.length then some w else none

def valueToEnd? (cs : Chars) : Option Chars := do
  let rest ← afterBlanks? cs
  match rest with
  | [] => if cs.length ≥ 2 && cs.getLast? == some '\n' then some [] else none
  | rest => beforeEnd? rest

/-- Two words and the rest of the line: the form of the script and feature tables. -/
def twoWords? (cs : Chars) : Option (String × String × Chars) := do
  let (a, cs) ← run? isWord cs
  let cs ← afterBlanks? cs
  let (b, cs) ← run? isWord cs
  let cs ← afterBlanks? cs
  return (String.ofList a, String.ofList b, restOfLine cs)

/-- Parts between commas; blanks after a comma do not count. -/
def commaParts (cs : Chars) : List String :=
  match Text.splitOn ',' cs with
  | [] => []
  | first :: more => String.ofList first :: more.map fun p => String.ofList (Text.trimLeft p)

def header? (cs : Chars) : Option (String × String) := do
  let cs ← Text.dropStart? "lookup".toList cs
  let cs ← afterBlanks? cs
  let (name, cs) ← run? (fun c => isWord c || c == '-') cs
  let cs ← afterBlanks? cs
  return (String.ofList name, String.ofList (restOfLine cs))

/-- A word that is set to yes or no; whatever follows is not looked at. -/
def flagLine? (cs : Chars) : Option (String × Bool) := do
  let (w, cs) ← run? isWord cs
  let cs ← afterBlanks? cs
  if Text.startsWith "yes".toList cs then return (String.ofList w, true)
  else if Text.startsWith "no".toList cs then return (String.ofList w, false)
  else none

def number? (cs : Chars) : Option (Nat × Chars) := do
  let (ds, cs) ← run? Char.isDigit cs
  return (Text.valueOf 10 ds, cs)

def signed? : Chars → Option (Int × Chars)
  | '-' :: cs => (number? cs).map fun (n, cs) => (-(n : Int), cs)
  | cs => (number? cs).map fun (n, cs) => ((n : Int), cs)

/-- The class of marks that are attached, in capitals or not. -/
def attachmentType? (cs : Chars) : Option Nat := do
  let word := "markattachmenttype".toList
  if (cs.take word.length).map Char.toLower != word then none
  let cs ← afterBlanks? (cs.drop word.length)
  return (← number? cs).1

def advance? (cs : Chars) : Option (String × Int) := do
  let cs ← Text.dropStart? "x advance".toList cs
  let cs ← afterBlanks? cs
  let (name, cs) ← run? isName cs
  let cs ← afterBlanks? cs
  let (n, cs) ← signed? cs
  if cs.head? == some '\n' then return (String.ofList name, n) else none

def twoNames? (cs : Chars) : Option (String × String) := do
  let (a, cs) ← run? isName cs
  let cs ← afterBlanks? cs
  let (b, cs) ← run? isName cs
  if cs.head? == some '\n' then return (String.ofList a, String.ofList b) else none

def multiple? (cs : Chars) : Option (String × List String) := do
  let (a, cs) ← run? isName cs
  let rest ← valueToEnd? cs
  return (String.ofList a, (Text.splitOn '\t' rest).map String.ofList)

/-- A ligature and the rest of the line, which follows after a single blank. -/
def ligature? (cs : Chars) : Option (String × String) := do
  let (a, cs) ← run? isName cs
  match cs with
  | c :: cs => if Text.isBlank c then return (String.ofList a, String.ofList (← beforeEnd? cs)) else none
  | [] => none

/-- Two numbers with a comma between them; the line has to end. -/
def pointToEnd? (cs : Chars) : Option (Int × Int) := do
  let (x, cs) ← signed? cs
  match cs with
  | ',' :: cs =>
    let (y, cs) ← signed? cs
    let _ ← beforeEnd? cs
    return (x, y)
  | _ => none

def either? (first second : String) (cs : Chars) : Option (Bool × Chars) :=
  match Text.dropStart? first.toList cs with
  | some cs => (afterBlanks? cs).map (true, ·)
  | none => (Text.dropStart? second.toList cs).bind fun cs => (afterBlanks? cs).map (false, ·)

def cursive? (cs : Chars) : Option (Bool × String × Int × Int) := do
  let (isEntry, cs) ← either? "entry" "exit" cs
  let (name, cs) ← run? (fun c => !Text.isBlank c) cs
  let p ← pointToEnd? (← afterBlanks? cs)
  return (isEntry, String.ofList name, p)

/-- The anchor of a base or of a mark; the word after the name does not count. -/
def mark? (cs : Chars) : Option (Bool × String × Int × Int) := do
  let (isBase, cs) ← either? "base" "mark" cs
  let (name, cs) ← run? (fun c => !Text.isBlank c) cs
  let (_, cs) ← run? (fun c => !Text.isBlank c) (← afterBlanks? cs)
  let p ← pointToEnd? (← afterBlanks? cs)
  return (isBase, String.ofList name, p)

/-- A glyph and its class; names here have no hyphens. -/
def member? (cs : Chars) : Option (String × String) := do
  let (name, cs) ← run? (fun c => isWord c || c == '.') cs
  let (ds, _) ← run? Char.isDigit (← afterBlanks? cs)
  return (String.ofList name, String.ofList ds)

/-- The parts between tabs, without blanks at the end of the line. -/
def tabParts (cs : Chars) : List String := (Text.splitOn '\t' (Text.trimRight cs)).map String.ofList

def classChain? (cs : Chars) : Option (String × String × String × List String) := do
  let cs ← Text.dropStart? "class-chain\t".toList cs
  match Text.splitOn '\t' cs with
  | before :: input :: after :: rest =>
    if rest.isEmpty then none
    else
      let calls := restOfLine (cs.drop (before.length + input.length + after.length + 3))
      return (String.ofList before, String.ofList input, String.ofList after, tabParts calls)
  | _ => none

/-- A call: a position, a comma and the name of a lookup. The last comma counts that has a name
after it. -/
def call? (text : String) : Option (String × String) :=
  let cs := Text.trimLeft text.toList
  let word := cs.takeWhile fun c => !Text.isBlank c
  (List.range word.length).reverse.findSome? fun i =>
    if i == 0 || word[i]? != some ',' then none
    else
      (run? (fun c => !Text.isBlank c) (Text.trimLeft (cs.drop (i + 1)))).map fun (name, _) =>
        (String.ofList (word.take i), String.ofList name)

end GlyphRules.FontDame
