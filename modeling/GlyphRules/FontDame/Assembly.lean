import GlyphRules.FontDame.Listing

/-! A book from a listing.

Lookups become routines, and the calls of chains are tied to them. Features of the default language
take their lookups as they are; others take those that the default does not have, as routines of
their own for their languages. Unused lookups come last, each after those it calls. -/
namespace GlyphRules.FontDame

def SlotForm.glyphNames (s : Listing) : SlotForm → List String
  | .glyphs names => names
  | .cls i => s.members.getD i []
  | .others names => names

/-- Whether a slot is "every other glyph" with a single one left. -/
def SlotForm.isLoneRemainder : SlotForm → Bool
  | .others [_] => true
  | _ => false

def placeCalls (size : Nat) (find : String → Except Fault RoutineId) :
    Calls → List String → Except Fault (Calls × List String)
  | calls, [] => .ok (calls, [])
  | calls, text :: more => do
    let some (position, name) := call? text | throw (.refused (.verbatim ("Unparsable lookup chain " ++ text)))
    let n := (← Number.read position) - 1
    let i := if n < 0 then n + size else n
    if i < 0 || i ≥ size then throw .outOfRange
    let id ← find name
    let calls := calls.modify i.toNat fun c => some (c.getD [] ++ [.bare id])
    let (calls, names) ← placeCalls size find calls more
    return (calls, name :: names)

def RuleForm.toRule (s : Listing) (find : String → Except Fault RoutineId) : RuleForm → Except Fault (Rule × List String)
  | .substitution input replacement =>
    .ok (.ofBody (.substitution { input := some input, replacement := some replacement }), [])
  | .advance glyph n =>
    .ok (.ofBody (.positioning { glyphs := [[glyph]], values := [some { xAdvance := some (.fixed (.int n)) }] }), [])
  | .attachment base mark bases marks =>
    let points (l : List (String × Int × Int)) : List (String × Point) :=
      l.map fun (g, x, y) => (g, .fixed (.int x), .fixed (.int y))
    .ok ({ body := .attachment
             { baseName := some base, markName := some mark, bases := points bases, marks := points marks },
           languages := some (.pairs []) }, [])
  | .chain before input after calls => do
    let names (l : List SlotForm) : List Slot := l.map (·.glyphNames s)
    let (calls, called) ← placeCalls input.length find (List.replicate input.length none) calls
    let rule := Rule.ofBody (.chaining
      { input := some (names input), before := names before, after := names after, calls })
    return ({ rule with unwritable := (before ++ input ++ after).any (·.isLoneRemainder) }, called)

def systemOf (name : String) : LanguageSystem :=
  match Text.split '/' name with
  | [script, language] => (script, if language == "default" then "dflt" else language)
  | _ => (name, "dflt")

structure Assembly where
  book : Book := {}
  /-- The routine of each lookup. -/
  routines : List (String × RoutineId) := []
  /-- The lookups that the chains of a lookup call. -/
  calls : List (String × List String) := []
  /-- The lookups of each feature in the default language. -/
  defaults : List (String × List String) := []
  /-- The lookups that features use. -/
  used : List String := []

namespace Assembly

def find (a : Assembly) (name : String) : Except Fault RoutineId :=
  (Dict.get? a.routines name).elim (.error .notFound) .ok

def start (s : Listing) : Assembly :=
  s.lookups.foldl (fun a (name, i) =>
    let form := s.forms.getD i default
    let (id, book) := a.book.addRoutine { name := some form.name, flags := .bits form.flags }
    { a with book, routines := a.routines ++ [(name, id)] }) {}

def addRules (s : Listing) (a : Assembly) (lookup : String × Nat) : Except Fault Assembly := do
  let id ← a.find lookup.1
  (s.forms.getD lookup.2 default).rules.foldlM (fun a form => do
    let (rule, called) ← form.toRule s a.find
    return { a with
      book := a.book.appendRule id rule
      calls := if called.isEmpty then a.calls else Dict.alter a.calls lookup.1 [] (· ++ called) }) a

def addFeature (a : Assembly) (languages : List String) (f : FeatureForm) : Except Fault Assembly := do
  if languages.contains "DFLT/default" then
    let ids ← f.lookups.mapM a.find
    return { a with
      book := a.book.addFeature f.tag (ids.map .bare)
      defaults := Dict.set a.defaults f.tag f.lookups
      used := a.used ++ f.lookups }
  else
    let base := (Dict.get? a.defaults f.tag).getD []
    let lookups := f.lookups.filter fun l => !base.contains l
    let ids ← lookups.mapM a.find
    let systems := languages.map systemOf
    let (ids, book) := ids.foldl (fun (ids, book) id =>
      let r := book.routine id
      let (id, book) := book.addRoutine { content := r.content, flags := r.flags, languages := .pairs systems }
      (ids ++ [id], book)) (([] : List RoutineId), a.book)
    return { a with book := book.addFeature f.tag (ids.map .bare), used := a.used ++ lookups }

/-- Put a lookup in force after those it calls. Lookups may not call each other in a circle, nor
one that a feature uses. -/
def putInForce : Nat → (Assembly × List String) → String → Except Fault (Assembly × List String)
  | 0, _, _ => .error .endless
  | fuel + 1, (a, done), name =>
    if done.contains name then .ok (a, done)
    else do
      let (a, done) ← ((Dict.get? a.calls name).getD []).foldlM (putInForce fuel) (a, done)
      if a.used.contains name then throw .notFound
      let id ← a.find name
      return ({ a with book := { a.book with order := a.book.order ++ [id] } }, done ++ [name])

end Assembly

def Listing.toBook (s : Listing) : Except Fault Book := do
  let a ← s.lookups.foldlM (Assembly.addRules s) (Assembly.start s)
  let features ← s.features.mapM fun (n, f) =>
    match s.uses.find? (·.1 == n) with
    | some (_, languages) => .ok (n, languages, f)
    | none => .error .notFound
  let sorted := features.mergeSort fun a b => decide (a.1 ≤ b.1)
  let a ← sorted.foldlM (fun a (_, languages, f) => Assembly.addFeature a languages f) a
  let left := (s.lookups.map (·.1)).filter fun l => !a.used.contains l
  let (a, _) ← left.foldlM (Assembly.putInForce (s.lookups.length + 1)) (a, [])
  return a.book

def read (lines glyphs : List String) : Except Fault Book × Listing :=
  let (r, s) := (Listing.steps lines).run { glyphs }
  (r.bind fun _ => s.toBook, s)

end GlyphRules.FontDame
