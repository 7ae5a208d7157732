import GlyphRules.Tool.Features
import GlyphRules.Shaping.Shaper

/-! Tools that shape texts with the rules of a font. -/
namespace GlyphRules.Tool

open Shaping (Session Shape UserFeature WriteOptions readUserFeatures)

/-! ### One text -/

def shapeUsage : Usage where
  switches :=
    [{ key := "verbose", words := ["--verbose", "-V"] },
     { key := "plain", words := ["--ned", "--no-extra-data"] },
     { key := "numbers", words := ["--no-glyph-names"] },
     { key := "noPositions", words := ["--no-positions"] },
     { key := "additional", words := ["--additional"], need := .value },
     { key := "features", words := ["--features"], need := .value },
     { key := "codes", words := ["-u"], need := .value }]
  operands := [{ key := "font" }, { key := "text", isOptional := true }]
  oneOf := ["codes", "text"]

def withoutMarks : List Char → List Char
  | [] => []
  | 'u' :: cs | 'U' :: cs => withoutMarks cs
  | '0' :: 'x' :: cs => withoutMarks cs
  | c :: cs => c :: withoutMarks cs

def readCharacter (text : String) : Except Fault Nat :=
  match Number.read? 16 text with
  | none => .error .badValue
  | some n =>
    if n < -2147483648 || 2147483647 < n then .error .overflow
    else if n < 0 || 0x10FFFF < n then .error .badValue
    else .ok n.toNat

def readCodePoints (text : String) : Except Fault (List Nat) :=
  let cs := (withoutMarks text.toList).map fun c => if Text.isBlank c then ',' else c
  (Text.splitOn ',' cs).mapM fun w => readCharacter (String.ofList w)

def codesOf (g : Given) : Except Fault (List Nat) :=
  match g.text? "codes" with
  | some codes => readCodePoints codes
  | none => .ok (((g.value? "text").getD "").toList.map Char.toNat)

def shaping {α : Type} (s : Session) (step : Shape α) : Job (α × Session) := do
  let (r, after) := step.run { s with book := { s.book with warnings := [] } }
  Job.warn after.book.warnings
  return (← Job.ofExcept r, { after with book := { after.book with warnings := [] } })

def shape (d : Desk) : Job Unit := do
  let g ← Job.options shapeUsage d
  let file := (g.value? "font").getD ""
  let hasRules := Text.hasEnd ".ttf" file || Text.hasEnd ".otf" file
  let book ← if hasRules then Job.rulesOf d file else pure {}
  let codes ← Job.ofExcept (codesOf g)
  let session : Session := { book, font := d.font, characters := d.characters }
  let (_, session) ← shaping session (Shape.start [] codes none none none)
  if !hasRules then Job.fail .undefinedName
  let wishes := ((g.text? "features").map readUserFeatures).getD []
  let (r, after) := (Shape.execute wishes).run session
  Job.warn after.book.warnings
  let level := g.count "verbose"
  if level > 0 then Job.log (after.trace (level > 1))
  Job.ofExcept r
  let buffer := after.buffer
  let buffer := if buffer.direction == some "RTL" then { buffer with items := buffer.items.reverse } else buffer
  let options : WriteOptions :=
    { position := !g.has "noPositions", names := !g.has "numbers", ned := g.has "plain",
      additional := (g.text? "additional").toList }
  Job.printLine (← Job.ofExcept (buffer.text options))

/-! ### Coverage -/

def coverageUsage : Usage where
  switches := [indexSwitch, { key := "verbose", words := ["--verbose", "-V"] }]
  operands := [{ key := "words" }, { key := "font" }]

def shapeLines (s : Session) : List String → Job Session
  | [] => return s
  | line :: rest => do
    let (_, s) ← shaping s (do
      Shape.start [] (line.toList.map Char.toNat) none none none
      Shape.execute [])
    shapeLines s rest

/-- How many out of how many, and the percentage. -/
def share (what : String) (some_ all : Nat) (percent : Float) : String :=
  "Tests covered " ++ toString some_ ++ "/" ++ toString all ++ " " ++ what ++ " = " ++ Decimal.fixed 5 percent ++ "%"

/-- Tell how many lookups and rules of a font the lines of a file make use of. -/
def coverage (d : Desk) : Job Unit := do
  let g ← Job.options coverageUsage d
  let file := (g.value? "font").getD ""
  if isUnpicked file g then Job.fail .undefinedName
  let book ← Job.rulesOf d file
  let words ← Job.ofExcept (d.read ((g.value? "words").getD ""))
  let s ← shapeLines { book, font := d.font, characters := d.characters } (linesOf words)
  let book := s.book
  let isUsed (i : RoutineId) : Bool := s.applied.any (·.1 == i)
  let rules := book.order.flatMap book.ruleIds
  let used := (book.order.filter isUsed).length
  let applied := (rules.filter fun r => s.applied.any (·.2 == r)).length
  let lookups := book.order.length
  if lookups == 0 then Job.fail .zeroDivision
  Job.printLine (share "lookups" used lookups (100.0 * (used.toFloat / lookups.toFloat)))
  if rules.isEmpty then Job.fail .zeroDivision
  Job.printLine (share "rules" applied rules.length ((100 * applied).toFloat / rules.length.toFloat))
  if g.has "verbose" then
    Job.printLine "\nUnused lookups:"
    let mut b := book
    for i in book.order do
      if !isUsed i then
        let (text, after) ← Job.onBook b (do ofExcept (← Feature.statementOf false i).text)
        b := after
        Job.printLine text

end GlyphRules.Tool
