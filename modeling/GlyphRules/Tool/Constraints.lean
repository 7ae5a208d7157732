import GlyphRules.Tool.Desk
import GlyphRules.Shaping.ConstraintSet

/-! Code that keeps vowels apart, from a list of prohibited sequences. -/
namespace GlyphRules.Tool

open Shaping (ConstraintSet)

structure ScriptRange where
  first : Nat
  last : Nat
  script : String

def upTo (mark : Char) (cs : List Char) : List Char := cs.takeWhile (· != mark)

def readCode (text : String) : Except Fault Nat :=
  match Number.read? 16 text with
  | some n => .ok n.toNat
  | none => .error .badValue

/-- The ranges of scripts: on each line a code point or two, and after a semicolon the script. -/
def readScriptRange (line : String) : Except Fault (Option ScriptRange) := do
  let cs := Text.trim (upTo '#' line.toList)
  if cs.isEmpty then return none
  match Text.splitOn ';' cs with
  | codes :: script :: _ =>
    let script := String.ofList (Text.trim script)
    match Text.splitOn '.' (Text.trim codes) with
    | [first, [], last] => return some ⟨← readCode (String.ofList first), ← readCode (String.ofList last), script⟩
    | _ =>
      let code ← readCode (String.ofList codes)
      return some ⟨code, code, script⟩
  | _ => throw .badValue

def readScriptRanges (text : String) : Except Fault (List ScriptRange) := do
  return (← (Text.split '\n' text).mapM readScriptRange).filterMap id

def scriptOf (ranges : List ScriptRange) (code : Nat) : Except Fault String :=
  match ranges.reverse.find? fun r => r.first ≤ code && code ≤ r.last with
  | some r => .ok r.script
  | none => .error .notFound

def startOf (ranges : List ScriptRange) (script : String) : Nat :=
  ((ranges.find? (·.script == script)).map (·.first)).getD 0

/-- The sequence on a line: code points before a comment and a semicolon. -/
def readSequence (line : String) : Except Fault (List Nat) :=
  (Text.wordsOf (upTo ';' (upTo '#' line.toList))).mapM fun w => readCode (String.ofList w)

def addLine (ranges : List ScriptRange) (sets : List (String × ConstraintSet)) (line : String) :
    Except Fault (List (String × ConstraintSet)) := do
  match ← readSequence line with
  | [] => return sets
  | [_] => throw .brokenPromise
  | first :: rest =>
    let script ← scriptOf ranges first
    match Dict.get? sets script with
    | some set => return Dict.set sets script (set.add (first :: rest))
    | none => return Dict.set sets script (.sequence (first :: rest))

/-- The lines after the header, which ends in a line with a number sign alone. -/
def afterHeader : List String → Except Fault (List String)
  | [] => .error .unfinished
  | line :: rest => if Text.strip line == "#" then .ok rest else afterHeader rest

/-- The prohibited sequences of each script, in the order of the scripts' first characters. -/
def readConstraints (ranges : List ScriptRange) (text : String) : Except Fault (List (String × ConstraintSet)) := do
  let sets ← (← afterHeader (Text.split '\n' text)).foldlM (addLine ranges) []
  return sets.mergeSort fun a b => decide (startOf ranges a.1 ≤ startOf ranges b.1)

def constraintsHead : String :=
  "\nfrom fontFeatures.shaperLib.Buffer import BufferItem\n\nDOTTED_CIRCLE = 0x25CC\n\n" ++
  "def _insert_dotted_circle(buf, index):\n    dotted_circle = BufferItem.new_unicode(DOTTED_CIRCLE)\n" ++
  "    buf.items.insert(index, dotted_circle)\n\n"

def constraints (d : Desk) : Job Unit := do
  let [file] := d.args | Job.exit 1
  let ranges ← Job.ofExcept (do readScriptRanges (← d.read "Scripts.txt"))
  let sets ← Job.ofExcept (do readConstraints ranges (← d.read file))
  Job.printLine "# The following functions are generated by running:"
  Job.printLine ("# " ++ d.name ++ " ms-use/IndicShapingInvalidCluster.txt")
  Job.printLine constraintsHead
  Job.printLine "def preprocess_text_vowel_constraints(buffer):"
  for (script, set) in sets do
    Job.printLine ("    if buffer.script == \"" ++ script ++ "\":")
    Job.printLine "        i = 0"
    Job.printLine "        while i < len(buffer.items)-1:"
    Job.printLine "            matched = False"
    Job.put (← Job.ofExcept (set.text 0 2))
    Job.printLine "            i = i + 1"
    Job.printLine "            if matched: _insert_dotted_circle(buffer, i)"

end GlyphRules.Tool
