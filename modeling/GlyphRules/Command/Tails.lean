import GlyphRules.Command.Workshop

/-! Commands for letters with a tail that sweeps back under the letters before it.

A long tail collides with dots below the preceding letters, and draws a letter before a short word
into its sweep. Rules for both are written for all sequences of joined letters that are shorter than
the tail; letters are grouped by their run, so that there are few. -/
namespace GlyphRules.Command

abbrev RunGroup := List String × Int

def leastRun : Number := 100

def longestSequence : Int := 4

inductive DotStrategy where
  | alwaysDrop | tryToFit
deriving DecidableEq

namespace Phrase

def moveDots : Phrase (DotStrategy × Selection) := do
  let s ← word [("AlwaysDrop", DotStrategy.alwaysDrop), ("TryToFit", .tryToFit)]
  let dots ← glyphs
  pure (s, dots)

def fixOverhang (vars : Variables) : Phrase (Int × Selection) := do
  let padding ← value vars
  let s ← glyphs
  pure (padding, s)

end Phrase

def smallest : List Number → Except Fault Number
  | [] => .error .badValue
  | a :: as => .ok (as.foldl Number.min a)

def smallestBy (measure : String → Except Fault Number) : List String → Except Fault String
  | [] => .error .badValue
  | g :: gs => do
    let first ← measure g
    let best ← gs.foldlM (fun (best : String × Number) g => do
      let m ← measure g
      return if Number.lt m best.2 then (g, m) else best) (g, first)
    return best.1

/-- How many whole steps cover a length. -/
def stepsOver (length step : Number) : Int := (length.div step).ceil

/-- All ways to put the marks between the slots of a sequence or to leave them out. -/
def withMarks (marks : Slot) : List Slot → List (List Slot)
  | [] => [[]]
  | [s] => [[s]]
  | s :: more =>
    let rest := withMarks marks more
    rest.map (s :: ·) ++ rest.map fun r => if marks.isEmpty then s :: r else s :: marks :: r

def shownGroups (l : List RunGroup) : String :=
  Text.bracketed (l.map fun (glyphs, run) => Text.parenthesised [Text.quoted (glyphs.headD ""), toString run])

namespace Craft

def runs (names : List String) : Craft (List Number) := names.mapM fun g => do return (← glyph g).run

def rises (names : List String) : Craft (List Number) := names.mapM fun g => do
  return Number.max (← glyph g).rise leastRun

/-- How far the tail of a letter reaches. -/
def tailOf (name : String) : Craft Number := do
  let entry ← ((Dict.get? (← get).book.anchors name).bind (Dict.get? · "entry")).elim (throw .notFound) pure
  let g ← glyph name
  match g.bounds?, entry.1 with
  | some b, .fixed x => return Number.max (-(g.width - b.right)) (b.right - x)
  | _, _ => throw .wrongKind

def requireClasses (names : List String) (said : String → String) : Craft Unit := do
  for c in names do
    if !Dict.has (← get).book.namedClasses c then throw (.refused (.defineFirst (said c)))

/-- The chains of one sequence: a dot before it calls a routine, with or without other
dots between the letters. They hold one list of calls. -/
def dotChains (dots : Slot) (routine : RoutineId) (sequence : List Slot) : Craft (List RuleId) := do
  let calls : Calls := some [.bare routine] :: List.replicate (sequence.length - 1) none
  let group := (← get).book.rules.size
  (withMarks dots sequence).mapM fun after =>
    addRule (.ofBody (.chaining { input := some [dots], after, calls, group := some group }))

/-- All sequences up to the tail's length, shorter ones first: each gets its chains, and grows by a
group of letters at its start. -/
def dotSequences (dots : Slot) (routine : RoutineId) (tail : Number) (longest : Int) (groups : List RunGroup)
    (letter : String) : Nat → List (List RunGroup) → Craft (List RuleId)
  | 0, _ => return []
  | fuel + 1, level => do
    let found ← level.mapM fun sequence => do
      let total := (sequence.map (·.2)).foldl (· + ·) 0
      warn ("Sequence " ++ shownGroups sequence ++ " total " ++ toString total ++ " bariye_tail " ++ toString tail.truncate)
      if Number.lt tail (.int total) || (sequence.length : Int) + 1 > longest then return ([], [])
      let rules ← dotChains dots routine (sequence.map (·.1) ++ [[letter]])
      return (rules, groups.map fun m => m :: sequence)
    let next := found.flatMap (·.2)
    if next.isEmpty then return found.flatMap (·.1)
    return found.flatMap (·.1) ++ (← dotSequences dots routine tail longest groups letter fuel next)

def moveDots (text : String) : Craft (List Product) := do
  let (strategy, dots) ← read (fun _ => Phrase.moveDots) text
  requireClasses ["inits", "medis", "bariye", "behs"] id
  let medis ← classNamed "medis"
  let inits ← classNamed "inits"
  let behs ← classNamed "behs"
  let dots ← resolve dots
  let initBehs := Text.sort (Text.distinct (behs.filter inits.contains))
  let step := Number.max leastRun (← ofExcept (smallest (← runs medis)))
  let initBehWidth ← ofExcept (smallest (← runs initBehs))
  let font := (← get).font
  let run (g : String) : Except Fault Number := do return (← font.get g).run
  let initBeh ← ofExcept (smallestBy run initBehs)
  warn ("Smallest medi width is " ++ toString step.truncate)
  let medi ← ofExcept (smallestBy run medis)
  (← classNamed "bariye").mapM fun letter => do
    warn ("BariYe computation for " ++ letter)
    let tail ← tailOf letter
    let longest1 := 1 + stepsOver (tail - initBehWidth) step
    warn ("Longest init beh sequence: " ++
      Text.join " " (List.replicate (longest1 - 1).toNat medi ++ [initBeh]))
    let otherInit ← ofExcept (smallest (← rises (inits.filter fun g => !behs.contains g)))
    let mediBeh ← ofExcept (smallest (← rises (medis.filter behs.contains)))
    let longest2 := 2 + stepsOver (tail - otherInit - mediBeh) step
    let longest := min longestSequence (max longest1 longest2)
    warn ("Max sequence width is " ++ toString longest)
    let lowered := Text.sort (dots.filter (Text.hasEnd ".yb"))
    let plain := Text.sort (dots.filter fun d => !Text.hasEnd ".yb" d)
    if plain.length != lowered.length then
      throw (.refused (.dotMismatch (Text.quotedList lowered) (Text.quotedList plain)))
    let drop ← routineOf [.ofBody (.substitution { input := some [plain], replacement := some [lowered] })]
    let mediGroups ← ofExcept (font.bins medis .run 5)
    let _ ← ofExcept (font.bins inits .run 5)
    let rules ← dotSequences dots drop tail longest mediGroups letter (longestSequence.toNat + 2) [[]]
    if strategy == .tryToFit then
      -- Whether a dot fits above the tail cannot be found out.
      let _ ← ofExcept (font.bins medis .rise 5)
      throw .missingPart
    let id ← addRoutine { content := .rules rules, flags := .bits 0x10, markFilteringSet := some dots }
    onBook fun b => { b with order := b.order ++ [drop] }
    return .routine id

/-- All short sequences before a letter, shorter ones first: each gets a rule that keeps the word
before it out of the tail. -/
def overhangSequences (letter : String) (tail : Number) (padding : Int) (groups : List RunGroup) :
    Nat → List (List RunGroup) → Craft (List Rule × Nat)
  | 0, _ => return ([], 0)
  | fuel + 1, level => do
    let found ← level.mapM fun sequence => do
      let total := (sequence.map fun g => Number.max (.int g.2) leastRun).foldl (· + ·) 0
      match sequence.getLast? with
      | none => return ([], [], 0)
      | some (input, _) =>
        if Number.lt tail total || (sequence.length : Int) > longestSequence then return ([], [], 0)
        let adjustment := tail - total + .int padding
        let after := sequence.dropLast.map (·.1) ++ [[letter]]
        warn ("For glyphs in " ++ Text.quotedList (input.headD "" :: after.map (·.headD "")) ++ ", overhang=" ++
          toString tail.truncate ++ " totalwidth=" ++ toString total.truncate ++ " adjustment=" ++
          toString adjustment.truncate)
        let rule := Rule.ofBody (.positioning
          { glyphs := [input], values := [some { xAdvance := some (.fixed (.int adjustment.truncate)) }], after })
        return ([rule], groups.map fun m => m :: sequence, sequence.length)
    let next := found.flatMap (·.2.1)
    let longest := found.foldl (fun n f => max n f.2.2) 0
    if next.isEmpty then return (found.flatMap (·.1), longest)
    let (rules, longer) ← overhangSequences letter tail padding groups fuel next
    return (found.flatMap (·.1) ++ rules, max longest longer)

/-- Keep the word before a short sequence out of the tail of its last letter. -/
def fixOverhang (text : String) : Craft (List Product) := do
  let (padding, s) ← read Phrase.fixOverhang text
  requireClasses ["inits", "medis"] fun _ => "%s"
  let medis ← classNamed "medis"
  let inits ← classNamed "inits"
  let letters ← resolve s
  let font := (← get).font
  let mediGroups ← ofExcept (font.bins medis .run 8)
  let initGroups ← ofExcept (font.bins inits .run 8)
  let found ← letters.mapM fun letter => do
    overhangSequences letter (← tailOf letter) padding mediGroups (longestSequence.toNat + 2)
      (initGroups.map fun g => [g])
  warn ("Bari Ye collision maximum chain length was " ++ toString (found.foldl (fun n f => max n f.2) 0) ++ " glyphs")
  return [.routine (← routineOf (found.flatMap (·.1)) 8)]

end Craft
end GlyphRules.Command
