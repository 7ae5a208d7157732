import GlyphRules.Fault
import GlyphRules.Text.Basic

/-! The text of a list of commands.

A command is a verb, words, at most one block of commands in braces, more words and a semicolon. A
word is a run of characters other than blanks and semicolons. Braces that stand alone are words,
unless the text can only be read with them as a block; likewise `#` starts a comment unless the text
can only be read otherwise. The readers take what to do next as an argument, and so come back to an
earlier choice. -/
namespace GlyphRules.Command

/-- A command as written. -/
inductive Statement where
  | mk (verb : String) (before : List String) (block : List Statement) (after : List String)

namespace Source

def isGap (c : Char) : Bool := Text.isSpace c || c == '\x0c'

def isWord (c : Char) : Bool := !Text.isBlank c && c != ';'

def isVerb (c : Char) : Bool := c.isAlphanum || c == '_'

/-- Skip the gap before a verb or a closing brace, where `#` can only be a comment. -/
def skipGap : Nat → List Char → List Char
  | 0, cs => cs
  | fuel + 1, cs =>
    match cs with
    | '#' :: rest => skipGap fuel (rest.dropWhile (· != '\n'))
    | c :: rest => if isGap c then skipGap fuel rest else cs
    | [] => []

/-- A verb is a capital followed by at least one letter, digit or low line. -/
def verb? (cs : List Char) : Option (String × List Char) :=
  match cs with
  | c :: rest =>
    let more := rest.takeWhile isVerb
    if c.isUpper && !more.isEmpty then some (String.ofList (c :: more), rest.drop more.length) else none
  | [] => none

mutual
/-- Read as many commands as there are, then go on. -/
def statements {β : Type} : Nat → List Char → (List Statement → List Char → Option β) → Option β
  | 0, _, _ => none
  | fuel + 1, cs, next =>
    match verb? (skipGap cs.length cs) with
    | none => next [] cs
    | some (verb, rest) =>
      (arguments fuel verb [] none rest fun s rest =>
        statements fuel rest fun more rest => next (s :: more) rest).or (next [] cs)

/-- Read the rest of a command, after the words and perhaps the block that came already. -/
def arguments {β : Type} : Nat → String → List String → Option (List String × List Statement) → List Char →
    (Statement → List Char → Option β) → Option β
  | 0, _, _, _, _, _ => none
  | fuel + 1, verb, words, block, cs, next =>
    let word : Option β :=
      match cs.takeWhile isWord with
      | [] => none
      | run => arguments fuel verb (words ++ [String.ofList run]) block (cs.drop run.length) next
    match cs, block with
    | [], _ => none
    | ';' :: rest, none => next (.mk verb words [] []) rest
    | ';' :: rest, some (before, inner) => next (.mk verb before inner words) rest
    | '#' :: rest, _ => (arguments fuel verb words block (rest.dropWhile (· != '\n')) next).or word
    | '{' :: rest, none =>
      word.or <| statements fuel rest fun inner rest =>
        match skipGap rest.length rest with
        | '}' :: rest => arguments fuel verb [] (some (words, inner)) rest next
        | _ => none
    | c :: rest, _ => if isGap c then arguments fuel verb words block rest next else word
end

def read (text : String) : Except Fault (List Statement) :=
  let cs := text.toList
  let found := statements (2 * cs.length + 2) cs fun l rest =>
    if (skipGap rest.length rest).isEmpty && !l.isEmpty then some l else none
  found.elim (.error .ungrammatical) .ok

end Source
end GlyphRules.Command
