/-! Words and lines.

Cutting and joining of text on lists of characters, all by structural recursion, so that what a
reader does can be followed character by character. -/
namespace GlyphRules.Text

/-- The blanks that separate words: those of ASCII, the file separators included. -/
def isBlank (c : Char) : Bool :=
  c == ' ' || c == '\t' || c == '\n' || c == '\r' || c.toNat == 11 || c.toNat == 12 ||
    (28 ≤ c.toNat && c.toNat ≤ 31) || c.toNat == 0x85 || c.toNat == 0xA0 || c.toNat == 0x1680 ||
    (0x2000 ≤ c.toNat && c.toNat ≤ 0x200A) || c.toNat == 0x2028 || c.toNat == 0x2029 ||
    c.toNat == 0x202F || c.toNat == 0x205F || c.toNat == 0x3000

/-- The blanks between the tokens of a format. -/
def isSpace (c : Char) : Bool := c == ' ' || c == '\t' || c == '\n' || c == '\r'

def isHex (c : Char) : Bool := c.isDigit || ('a' ≤ c && c ≤ 'f') || ('A' ≤ c && c ≤ 'F')

def digitOf (c : Char) : Nat :=
  if c.isDigit then c.toNat - 48 else if c ≥ 'a' then c.toNat - 87 else c.toNat - 55

/-- The number that digits stand for in a base. -/
def valueOf (base : Nat) (ds : List Char) : Nat := ds.foldl (fun n d => base * n + digitOf d) 0

def trimLeft (s : List Char) : List Char := s.dropWhile isBlank

def trimRight (s : List Char) : List Char := (s.reverse.dropWhile isBlank).reverse

def trim (s : List Char) : List Char := trimRight (trimLeft s)

def strip (s : String) : String := String.ofList (trim s.toList)

/-- Cut at every occurrence of a character; the pieces may be empty. -/
def splitOn (sep : Char) : List Char → List (List Char)
  | [] => [[]]
  | c :: rest =>
    match splitOn sep rest with
    | [] => [[c]]
    | piece :: more => if c == sep then [] :: piece :: more else (c :: piece) :: more

/-- Cut a string at every occurrence of a character. -/
def split (sep : Char) (s : String) : List String := (splitOn sep s.toList).map String.ofList

/-- The words of a text: the longest runs without blanks. -/
def wordsOf (s : List Char) : List (List Char) :=
  go s []
where
  go : List Char → List Char → List (List Char)
    | [], word => if word.isEmpty then [] else [word.reverse]
    | c :: rest, word =>
      if isBlank c then (if word.isEmpty then go rest [] else word.reverse :: go rest [])
      else go rest (c :: word)

def words (s : String) : List String := (wordsOf s.toList).map String.ofList

def join (sep : String) (parts : List String) : String := sep.intercalate parts

def startsWith (part : List Char) (s : List Char) : Bool := part.isPrefixOf s

def dropStart? : List Char → List Char → Option (List Char)
  | [], s => some s
  | _ :: _, [] => none
  | p :: ps, c :: cs => if p == c then dropStart? ps cs else none

def occursIn (part : List Char) : List Char → Bool
  | [] => part.isEmpty
  | c :: cs => part.isPrefixOf (c :: cs) || occursIn part cs

/-- Whether the string begins with the given text. -/
def hasStart (part s : String) : Bool := part.toList.isPrefixOf s.toList

def hasEnd (part s : String) : Bool := part.toList.reverse.isPrefixOf s.toList.reverse

/-- Put a text on the left until it is as wide as asked. -/
def padLeft (fill : Char) (width : Nat) (s : String) : String :=
  String.ofList (List.replicate (width - s.length) fill) ++ s

def padRight (fill : Char) (width : Nat) (s : String) : String :=
  s ++ String.ofList (List.replicate (width - s.length) fill)

def digitChar (n : Nat) : Char :=
  if n < 10 then Char.ofNat (48 + n) else Char.ofNat (55 + n)

/-- Digits of a number in a base, most significant first, with capital letters above nine. -/
def digits (base n : Nat) : List Char :=
  if _h : base ≤ 1 ∨ n < base then [digitChar n]
  else digits base (n / base) ++ [digitChar (n % base)]
termination_by n
decreasing_by
  have : 1 < base := by omega
  exact Nat.div_lt_self (by omega) this

/-- Hexadecimal with capital letters, at least four digits wide. -/
def hex4 (n : Nat) : String := padLeft '0' 4 (String.ofList (digits 16 n))

/-- Hexadecimal with small letters, at least four digits wide. -/
def hex4Lower (n : Nat) : String := padLeft '0' 4 (String.ofList ((digits 16 n).map Char.toLower))

/-- The order of strings by code points, as a test for sorting. -/
def le (a b : String) : Bool := !(b < a)

def sort (l : List String) : List String := l.mergeSort le

/-- A list with a filler at its end until it is long enough. -/
def padTo {α : Type} (length : Nat) (filler : α) (l : List α) : List α :=
  l ++ List.replicate (length - l.length) filler

/-- Each string once, at its first place. -/
def distinct {α : Type} [BEq α] (l : List α) : List α :=
  l.foldl (fun seen a => if seen.contains a then seen else seen ++ [a]) []

end GlyphRules.Text
