import GlyphRules.Fault
import GlyphRules.Text.Regex.Basic

/-! Reading regular expressions.

Groups are numbered by their opening bracket. A pattern is refused if a bracket stays open or is
closed twice, if there is nothing to repeat, a range runs backwards, an escape is unknown, or a
group is named that does not exist. -/
namespace GlyphRules.Text.Regex

/-- The state of reading a pattern. -/
structure Reading where
  rest : List Char
  /-- The number of groups that have been opened. -/
  groups : Nat := 0
  /-- The groups that have been closed. -/
  closed : List Nat := []
  names : List (String × Nat) := []
  fold : Bool := false

abbrev Read := StateT Reading (Except Fault)

namespace Read

def refuse {α : Type} : Read α := throw .badPattern

def peek : Read (Option Char) := do return (← get).rest.head?

def take : Read Char := do
  let s ← get
  match s.rest with
  | c :: cs => set { s with rest := cs }; return c
  | [] => refuse

def accept (text : String) : Read Bool := do
  let s ← get
  match dropStart? text.toList s.rest with
  | some rest => set { s with rest }; return true
  | none => return false

/-- Take the longest run of some characters. -/
def takeWhile (f : Char → Bool) : Read (List Char) := do
  let s ← get
  set { s with rest := s.rest.dropWhile f }
  return s.rest.takeWhile f

def isOctal (c : Char) : Bool := '0' ≤ c && c ≤ '7'

/-- A character by its code, with exactly so many digits. -/
def coded (digits : Nat) : Read Char := do
  let s ← get
  let ds := s.rest.take digits
  if ds.length != digits || !ds.all isHex then refuse
  set { s with rest := s.rest.drop digits }
  return Char.ofNat (valueOf 16 ds)

def characters : List (Char × Char) :=
  [('a', '\x07'), ('f', '\x0c'), ('n', '\n'), ('r', '\r'), ('t', '\t'), ('v', '\x0b'), ('\\', '\\')]

def letterClass (c : Char) : Option ClassMember :=
  match c with
  | 'd' => some (.digit false)
  | 'D' => some (.digit true)
  | 's' => some (.blank false)
  | 'S' => some (.blank true)
  | 'w' => some (.word false)
  | 'W' => some (.word true)
  | _ => none

/-- An escape that stands for one character, after its first letter. -/
def plainEscape (c : Char) : Read Char := do
  match characters.find? (·.1 == c) with
  | some (_, d) => return d
  | none =>
    match c with
    | 'x' => coded 2
    | 'u' => coded 4
    | 'U' => coded 8
    | _ => if c.isAlphanum then refuse else return c

def literal (c : Char) : Read Regex := do return .oneOf false (← get).fold [.range c c]

/-- A number after a backslash: a code in base eight, or a group. -/
def numberEscape (c : Char) : Read Regex := do
  if c == '0' then
    let s ← get
    let ds := (s.rest.take 2).takeWhile isOctal
    set { s with rest := s.rest.drop ds.length }
    literal (Char.ofNat (valueOf 8 ds))
  else
    let s ← get
    let octal := (s.rest.take 2)
    if isOctal c && octal.length == 2 && octal.all isOctal then
      set { s with rest := s.rest.drop 2 }
      let n := valueOf 8 (c :: octal)
      if n > 255 then refuse
      literal (Char.ofNat n)
    else
      let more := (s.rest.take 1).takeWhile Char.isDigit
      set { s with rest := s.rest.drop more.length }
      let n := valueOf 10 (c :: more)
      if n > s.groups || !s.closed.contains n then refuse
      return .again n

def escape : Read Regex := do
  let c ← take
  match letterClass c with
  | some m => return .oneOf false false [m]
  | none =>
    match c with
    | 'A' => return .start
    | 'Z' => return .textEnd
    | 'b' => return .edge false
    | 'B' => return .edge true
    | _ => if c.isDigit then numberEscape c else literal (← plainEscape c)

def setItem : Read (ClassMember ⊕ Char) := do
  let c ← take
  if c != '\\' then return .inr c
  let e ← take
  match letterClass e with
  | some m => return .inl m
  | none =>
    if e == 'b' then return .inr '\x08'
    if isOctal e then
      let s ← get
      let ds := (s.rest.take 2).takeWhile isOctal
      set { s with rest := s.rest.drop ds.length }
      let n := valueOf 8 (e :: ds)
      if n > 255 then refuse
      return .inr (Char.ofNat n)
    return .inr (← plainEscape e)

/-- The members of a class up to its closing bracket, which may stand first as a member. -/
def setMembers : Nat → Bool → Read (List ClassMember)
  | 0, _ => refuse
  | fuel + 1, first => do
    if (← peek) == some ']' && !first then
      let _ ← take
      return []
    let low ← setItem
    let s ← get
    let member ← match s.rest with
      | '-' :: d :: _ =>
        if d == ']' then
          pure (match low with | .inl m => m | .inr c => .range c c)
        else do
          set { s with rest := s.rest.drop 1 }
          match low, ← setItem with
          | .inr a, .inr b => if b < a then refuse else pure (.range a b)
          | _, _ => refuse
      | _ => pure (match low with | .inl m => m | .inr c => .range c c)
    return member :: (← setMembers fuel false)

def charClass : Read Regex := do
  let negated ← accept "^"
  let s ← get
  return .oneOf negated s.fold (← setMembers (s.rest.length + 1) true)

def bounds : Read (Option (Nat × Option Nat)) := do
  let s ← get
  let low ← takeWhile Char.isDigit
  let high ← if ← accept "," then some <$> takeWhile Char.isDigit else pure none
  if (low.isEmpty && high.isNone) || !(← accept "\x7d") then
    set s
    return none
  let least := valueOf 10 low
  let most := match high with
    | none => some least
    | some [] => none
    | some ds => some (valueOf 10 ds)
  if most.any (· < least) then refuse
  return some (least, most)

/-- Whether something can be repeated: places cannot, nor can repetitions. -/
def canRepeat : Regex → Bool
  | .empty | .start | .finish | .textEnd | .edge _ | .times .. => false
  | _ => true

/-- How often the last part is repeated, if anything says so. -/
def repetition : Read (Option (Nat × Option Nat)) := do
  if ← accept "*" then return some (0, none)
  if ← accept "+" then return some (1, none)
  if ← accept "?" then return some (0, some 1)
  let s ← get
  if ← accept "\x7b" then
    match ← bounds with
    | some b => return some b
    | none => set s; return none
  return none

def width? : Regex → Option Nat
  | .empty | .start | .finish | .textEnd | .edge _ | .ahead .. | .behind .. => some 0
  | .any | .oneOf .. => some 1
  | .group _ body => width? body
  | .again _ => none
  | .seq a b => do return (← width? a) + (← width? b)
  | .alt a b => do
    let m ← width? a
    let n ← width? b
    if m == n then some m else none
  | .times least most _ body => do
    let n ← width? body
    if most == some least || n == 0 then some (n * least) else none

def isNameChar (c : Char) : Bool := isWordChar c

mutual
/-- Alternatives up to a closing bracket or the end. -/
def alternatives : Nat → Read Regex
  | 0 => refuse
  | fuel + 1 => do
    let first ← sequence fuel .empty .empty
    if ← accept "|" then return .alt first (← alternatives fuel)
    return first

/-- The parts of one alternative. The last part is kept apart, as it may be repeated. -/
def sequence : Nat → Regex → Regex → Read Regex
  | 0, _, _ => refuse
  | fuel + 1, done, last => do
    match ← peek with
    | none | some '|' | some ')' => return .seq done last
    | some _ =>
      match ← repetition with
      | some (least, most) =>
        if !canRepeat last then refuse
        let lazy ← accept "?"
        if !lazy then
          let _ ← accept "+"
        sequence fuel done (.times least most (!lazy) last)
      | none =>
        match ← atom fuel with
        | some r => sequence fuel (.seq done last) r
        | none => sequence fuel done last

/-- One part; comments and settings are none. -/
def atom : Nat → Read (Option Regex)
  | 0 => refuse
  | fuel + 1 => do
    match ← take with
    | '.' => return some .any
    | '^' => return some .start
    | '$' => return some .finish
    | '\\' => return some (← escape)
    | '[' => return some (← charClass)
    | '(' => bracket fuel
    | c => return some (← literal c)

def bracket : Nat → Read (Option Regex)
  | 0 => refuse
  | fuel + 1 => do
    let close : Read Unit := do if !(← accept ")") then refuse
    let inside : Read Regex := do
      let r ← alternatives fuel
      close
      return r
    let counted (name : Option String) : Read (Option Regex) := do
      modify fun s => { s with groups := s.groups + 1 }
      let n := (← get).groups
      if let some name := name then
        if (← get).names.any (·.1 == name) then refuse
        modify fun s => { s with names := (name, n) :: s.names }
      let r ← inside
      modify fun s => { s with closed := n :: s.closed }
      return some (.group (some n) r)
    if ← accept "?" then
      if ← accept ":" then return some (.group none (← inside))
      if ← accept ">" then return some (.group none (← inside))
      if ← accept "=" then return some (.ahead false (← inside))
      if ← accept "!" then return some (.ahead true (← inside))
      if ← accept "#" then
        let _ ← takeWhile (· != ')')
        close
        return none
      let behind (negated : Bool) : Read (Option Regex) := do
        let r ← inside
        match width? r with
        | some w => return some (.behind negated w r)
        | none => refuse
      if ← accept "<=" then return ← behind false
      if ← accept "<!" then return ← behind true
      if ← accept "P<" then
        let name ← takeWhile isNameChar
        if name.isEmpty || (name.head?.map Char.isDigit).getD true || !(← accept ">") then refuse
        return ← counted (some (String.ofList name))
      if ← accept "P=" then
        let name ← takeWhile isNameChar
        close
        match (← get).names.find? (·.1 == String.ofList name) with
        | some (_, n) => if (← get).closed.contains n then return some (.again n) else refuse
        | none => refuse
      let flags ← takeWhile fun c => "aiLmsux".toList.contains c
      if flags.isEmpty then refuse
      modify fun s => { s with fold := s.fold || flags.contains 'i' }
      close
      return none
    else counted none
end

end Read

def read (pattern : String) : Except Fault Regex := do
  let cs := pattern.toList
  let (r, s) ← (Read.alternatives (6 * cs.length + 6)).run { rest := cs }
  if s.rest.isEmpty then return r else throw .badPattern

end GlyphRules.Text.Regex
