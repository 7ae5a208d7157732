import GlyphRules.Shaping.Session

/-! Letters that join.

The form of a letter depends on whether its neighbours join it. A machine with seven states goes
through the letters; each settles its own form for now and the final form of the letter before it.
-/
namespace GlyphRules.Shaping.Arabic

def forms : List String := ["isol", "fina", "fin2", "fin3", "medi", "med2", "init"]

def letterKinds : List String := ["U", "L", "R", "D", "ALAPH", "DALATH_RISH"]

/-- For each state and each kind of letter: the form of the letter before, the form of
this letter, and the next state. -/
def transitions : List (List (String × String × Nat)) :=
  [ -- The letter before does not join.
   [("none", "none", 0), ("none", "isol", 2), ("none", "isol", 1), ("none", "isol", 2), ("none", "isol", 1),
    ("none", "isol", 6)],
   -- It joins only to its right, or is an isolated alaph.
   [("none", "none", 0), ("none", "isol", 2), ("none", "isol", 1), ("none", "isol", 2), ("none", "fin2", 5),
    ("none", "isol", 6)],
   -- It stands alone so far and would join.
   [("none", "none", 0), ("none", "isol", 2), ("init", "fina", 1), ("init", "fina", 3), ("init", "fina", 4),
    ("init", "fina", 6)],
   -- It is joined so far and would join.
   [("none", "none", 0), ("none", "isol", 2), ("medi", "fina", 1), ("medi", "fina", 3), ("medi", "fina", 4),
    ("medi", "fina", 6)],
   -- It is a final alaph.
   [("none", "none", 0), ("none", "isol", 2), ("med2", "isol", 1), ("med2", "isol", 2), ("med2", "fin2", 5),
    ("med2", "isol", 6)],
   -- It is an alaph of the second or third final form.
   [("none", "none", 0), ("none", "isol", 2), ("isol", "isol", 1), ("isol", "isol", 2), ("isol", "fin2", 5),
    ("isol", "isol", 6)],
   -- It is a dalath or a rish.
   [("none", "none", 0), ("none", "isol", 2), ("none", "isol", 1), ("none", "isol", 2), ("none", "fin3", 5),
    ("none", "isol", 6)]]

def letterKind (characters : Characters) (code : Nat) : String :=
  let get := characters.get? code
  let joining := match get "Joining_Type" with
    | none | some "" =>
      if ["Mn", "Cf", "Em"].contains ((get "General_Category").getD "") then "T" else "U"
    | some j => j
  if joining == "T" then "T"
  else
    match get "Joining_Group" with
    | some "ALAPH" => "ALAPH"
    | some "DALATH RISH" => "DALATH_RISH"
    | _ => if joining == "C" then "D" else joining

def transition (state : Nat) (kind : String) : Option (String × String × Nat) :=
  (letterKinds.idxOf? kind).bind fun k => (transitions[state]?).bind (·[k]?)

/-- The forms of a text that is read from a state on, and the form that its first letter, if there
is one, settles for the letter before. -/
def joinFrom (characters : Characters) (state : Nat) : List Nat → Except Fault (Option String × List String)
  | [] => .ok (none, [])
  | code :: rest => do
    let kind := letterKind characters code
    if kind == "T" then
      let later ← joinFrom characters state rest
      return (later.1, "NONE" :: later.2)
    match transition state kind with
    | none => throw .notFound
    | some (before, this, state) =>
      let later ← joinFrom characters state rest
      return (some before, later.1.getD this :: later.2)

def joinLetters (characters : Characters) (codes : List Nat) : Except Fault (List String) := do
  return (← joinFrom characters 0 codes).2

def followSelectors (codes : List Nat) (forms : List String) : List String :=
  go none (codes.zip forms)
where
  go : Option String → List (Nat × String) → List String
    | _, [] => []
    | before, (code, form) :: rest =>
      let form := if 0x180B ≤ code && code ≤ 0x180D then before.getD form else form
      form :: go (some form) rest

end GlyphRules.Shaping.Arabic

namespace GlyphRules.Shaping.Shape

/-- Mask every form for the letters that do not take it. -/
def maskForms : Shape Unit := do
  sayWith "Assigned Arabic joining" ["arabic_joining"]
  let features := (← get).book.features
  for f in Arabic.forms do
    if Dict.has features f then
      onBuffer fun b => { b with items := b.items.map fun i =>
        { i with masks := Dict.set i.masks f (i.joining != some f) } }

def joinArabic : Shape Unit := do
  let s ← get
  let codes := s.buffer.items.map fun i => i.codepoint.getD 0
  let forms ← ofExcept (Arabic.joinLetters s.characters codes)
  let forms := if s.buffer.script == some "Mongolian" then Arabic.followSelectors codes forms else forms
  onBuffer fun b => { b with items := b.items.zipWith (fun i f => { i with joining := some f }) forms }
  maskForms

end GlyphRules.Shaping.Shape
