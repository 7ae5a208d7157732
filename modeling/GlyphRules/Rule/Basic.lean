import GlyphRules.Dict
import GlyphRules.Font
import GlyphRules.Scalar.Basic
import GlyphRules.Text.Quoted

/-! Layout rules.

A rule is a substitution, a positioning, a chain that calls routines, or an attachment of marks to
bases. Glyph sequences are lists of slots, and a slot lists the glyphs that may stand there; a name
that starts with `@` is that of a class. Routines are known by number, so that chains may call each
other in any order. -/
namespace GlyphRules

/-- Markup may leave out a name. This stands in its place: it reads as the name of a class
that no font has. -/
def nameless : String := "@\x00"

abbrev Slot := List String

abbrev RoutineId := Nat

abbrev RuleId := Nat

/-- When a rule is run: before or after the glyphs are placed. -/
inductive Stage where
  | sub
  | pos
deriving DecidableEq

def Stage.name : Stage → String
  | .sub => "sub"
  | .pos => "pos"

/-- Where a rule comes from, as given: nothing, a number, a text or a list of such. -/
inductive Address where
  | none
  | number (n : Int)
  | text (s : String)
  | list (parts : List Address)

/-- Lookup flags. Read from markup they may be missing or still a text. -/
inductive Flags where
  | unset
  | bits (n : Int)
  | text (s : String)
deriving DecidableEq

abbrev LanguageSystem := String × String

/-- The language systems of a rule. Read from markup they are still a text. -/
inductive Languages where
  | pairs (systems : List LanguageSystem)
  | text (s : String)
deriving DecidableEq

/-- A routine called by name, or by number once it is known. A reference made
from a routine takes its name, which may be missing; one made from nothing has
no name at all. -/
structure Reference where
  name : Option (Option String) := none
  routine : Option RoutineId := none
deriving DecidableEq

/-- What a chain calls: a routine itself, or a reference to one. -/
inductive Lookup where
  | bare (routine : RoutineId)
  | ref (reference : Reference)
deriving DecidableEq, Inhabited

def Lookup.routine? : Lookup → Option RoutineId
  | .bare i => some i
  | .ref r => r.routine

abbrev Calls := List (Option (List Lookup))

def Calls.entries (c : Calls) : List Lookup := (c.filterMap id).flatten

/-- Changes of placement and advance; a part may be unset. In vertical writing
the advance that matters is the vertical one. -/
structure ValueRecord where
  xPlacement : Option Scalar := none
  yPlacement : Option Scalar := none
  xAdvance : Option Scalar := none
  yAdvance : Option Scalar := none
  vertical : Bool := false

/-- The mark that a substitution runs from the end; from markup it is a text or missing. -/
inductive Reversal where
  | forward
  | backward
  | unset
  | text (s : String)
deriving DecidableEq

/-- Glyphs for glyphs. A side that was never written is `none`. -/
structure Substitution where
  input : Option (List Slot)
  replacement : Option (List Slot)
  before : List Slot := []
  after : List Slot := []
  calls : Calls := []
  reversal : Reversal := .forward
  alternate : Bool := false
deriving DecidableEq, Inhabited

/-- Glyphs that are moved. Read from markup, a positioning may hold calls, which do nothing. -/
structure Positioning where
  glyphs : List Slot
  values : List (Option ValueRecord)
  before : List Slot := []
  after : List Slot := []
  calls : Option Calls := none

/-- Routines called at the positions of a glyph sequence. Chains of one `group`
hold one list of calls in common. -/
structure Chaining where
  input : Option (List Slot)
  before : List Slot := []
  after : List Slot := []
  calls : Calls := []
  group : Option Nat := none
deriving DecidableEq

abbrev Point := Scalar × Scalar

/-- Marks placed on bases by anchors. `markRuns` and `baseRuns` are the glyphs
grouped by anchor, once they have been computed for writing. -/
structure Attachment where
  baseName : Option String
  markName : Option String
  bases : List (String × Point) := []
  marks : List (String × Point) := []
  markToMark : Bool := false
  font : Option Font := none
  markRuns : Option (List (List String × Point)) := none
  baseRuns : Option (List (List String × Point)) := none

inductive RuleBody where
  | substitution (s : Substitution)
  | positioning (p : Positioning)
  | chaining (c : Chaining)
  | attachment (a : Attachment)
deriving Inhabited

/-- A rule with what all kinds of rules have. Rules of one `languageGroup` hold
one list of languages in common. A rule is `unwritable` when one of its slots is
"every other glyph" and only one glyph is left: such a slot has no written form. -/
structure Rule where
  body : RuleBody
  flags : Flags := .bits 0
  languages : Option Languages := none
  address : Address := .none
  languageGroup : Option Nat := none
  unwritable : Bool := false
deriving Inhabited

/-! ### Small questions -/

def Languages.isEmpty : Languages → Bool
  | .pairs l => l.isEmpty
  | .text s => s.isEmpty

def Rule.hasLanguages (r : Rule) : Bool :=
  match r.languages with
  | some l => !l.isEmpty
  | none => false

namespace Address

mutual
def same : Address → Address → Bool
  | .none, .none => true
  | .number a, .number b => a == b
  | .text a, .text b => a == b
  | .list a, .list b => sameAll a b
  | _, _ => false

def sameAll : List Address → List Address → Bool
  | [], [] => true
  | a :: as, b :: bs => same a b && sameAll as bs
  | _, _ => false
end

def counts : Address → Bool
  | .none => false
  | .number n => n != 0
  | .text s => !s.isEmpty
  | .list l => !l.isEmpty

mutual
def shown : Address → String
  | .none => "None"
  | .number n => toString n
  | .text s => Text.quoted s
  | .list l => Text.bracketed (shownAll l)

def shownAll : List Address → List String
  | [] => []
  | a :: as => shown a :: shownAll as
end

def written : Address → String
  | .text s => s
  | a => a.shown

end Address

namespace Flags

def counts : Flags → Bool
  | .unset => false
  | .bits n => n != 0
  | .text s => !s.isEmpty

def landBits (n : Int) (mask : Nat) : Nat := (n % (1 <<< (mask.log2 + 1) : Nat)).toNat &&& mask

def lorBits (a b : Int) : Int :=
  match a, b with
  | .ofNat a, .ofNat b => .ofNat (a ||| b)
  | a, b =>
    let w := Nat.max a.natAbs b.natAbs |>.log2
    let m : Nat := 1 <<< (w + 2)
    let c := (a % m).toNat ||| (b % m).toNat
    (c : Int) - m

def test (f : Flags) (mask : Nat) : Except Fault Bool :=
  match f with
  | .bits n => .ok (landBits n mask != 0)
  | _ => .error .wrongKind

def written : Flags → String
  | .unset => "None"
  | .bits n => toString n
  | .text s => s

end Flags

namespace ValueRecord

def parts (v : ValueRecord) : List (Option Scalar) :=
  [v.xPlacement, v.yPlacement, v.xAdvance, v.yAdvance]

def isSet (v : ValueRecord) : Bool := v.parts.any (·.isSome)

/-- The parts of a value that are not zero. -/
def settled (v : ValueRecord) : ValueRecord :=
  { xPlacement := v.xPlacement.filter Scalar.counts
    yPlacement := v.yPlacement.filter Scalar.counts
    xAdvance := v.xAdvance.filter Scalar.counts
    yAdvance := v.yAdvance.filter Scalar.counts }

end ValueRecord

namespace Reversal

def counts : Reversal → Bool
  | .backward => true
  | .text s => !s.isEmpty
  | _ => false

end Reversal

namespace Attachment

def isCursive (a : Attachment) : Bool :=
  a.baseName == some "cursive_entry" || a.baseName == some "entry"

end Attachment

namespace Rule

/-- A substitution, positioning, chain or attachment as a rule, with nothing else said. -/
def ofBody (body : RuleBody) : Rule := { body }

def before (r : Rule) : List Slot :=
  match r.body with
  | .substitution s => s.before
  | .positioning p => p.before
  | .chaining c => c.before
  | .attachment _ => []

def after (r : Rule) : List Slot :=
  match r.body with
  | .substitution s => s.after
  | .positioning p => p.after
  | .chaining c => c.after
  | .attachment _ => []

def hasContext (r : Rule) : Bool := !r.before.isEmpty || !r.after.isEmpty

def input (r : Rule) : Option (List Slot) :=
  match r.body with
  | .substitution s => s.input
  | .positioning p => some p.glyphs
  | .chaining c => c.input
  | .attachment a => some [a.bases.map (·.1), a.marks.map (·.1)]

def isChain (r : Rule) : Bool := r.body matches .chaining _

/-- The routines a rule calls. Attachments have no place for any, positionings only as read
from markup. -/
def calls (r : Rule) : Option Calls :=
  match r.body with
  | .substitution s => some s.calls
  | .chaining c => some c.calls
  | .positioning p => p.calls
  | .attachment _ => none

def withCalls (r : Rule) (calls : Calls) : Rule :=
  match r.body with
  | .chaining c => { r with body := .chaining { c with calls } }
  | .substitution s => { r with body := .substitution { s with calls } }
  | _ => r

def group? (r : Rule) : Option Nat :=
  match r.body with
  | .chaining c => c.group
  | _ => none

def involved (r : Rule) : Except Fault (List String) :=
  match r.body with
  | .substitution s =>
    match s.input, s.replacement with
    | some i, some o => .ok (Text.distinct (i.flatten ++ o.flatten ++ s.before.flatten ++ s.after.flatten))
    | _, _ => .error .wrongKind
  | .positioning p => .ok (Text.distinct (p.glyphs.flatten ++ p.before.flatten ++ p.after.flatten))
  | .chaining c =>
    match c.input with
    | some i => .ok (Text.distinct (i.flatten ++ c.before.flatten ++ c.after.flatten))
    | none => .error .wrongKind
  | .attachment a => .ok (Text.distinct (a.bases.map (·.1) ++ a.marks.map (·.1)))

def kind (r : Rule) : String :=
  match r.body with
  | .substitution _ => "Substitution"
  | .positioning _ => "Positioning"
  | .chaining _ => "Chaining"
  | .attachment _ => "Attachment"

end Rule
end GlyphRules
