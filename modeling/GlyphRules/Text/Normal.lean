/-! Canonical forms of text.

A composed character stands for a sequence. `decompose` writes every character as its full sequence
with the marks in the order of their classes; `compose` joins what can be joined. Hangul syllables
are computed; other characters are listed as far as the scripts that are shaped need them. -/
namespace GlyphRules.Text

/-! ### Hangul -/

def hangulL : Nat := 0x1100
def hangulV : Nat := 0x1161
def hangulT : Nat := 0x11A7
def hangulS : Nat := 0xAC00
/-- The number of syllables with one leading consonant. -/
def hangulN : Nat := 588

def isSyllable (c : Nat) : Bool := hangulS ≤ c && c < hangulS + 11172

def syllableParts (c : Nat) : List Nat :=
  let n := c - hangulS
  let parts := [hangulL + n / hangulN, hangulV + n % hangulN / 28]
  if n % 28 == 0 then parts else parts ++ [hangulT + n % 28]

/-! ### Listed characters -/

def compositions : List (Nat × Nat × Nat) :=
  [(0x0041, 0x0301, 0x00C1), (0x0041, 0x0323, 0x1EA0), (0x0042, 0x0323, 0x1E04), (0x0043, 0x0301, 0x0106),
   (0x0044, 0x0323, 0x1E0C), (0x0045, 0x0301, 0x00C9), (0x0045, 0x0323, 0x1EB8), (0x005A, 0x0301, 0x0179),
   (0x005A, 0x0323, 0x1E92), (0x0061, 0x0301, 0x00E1), (0x0061, 0x0323, 0x1EA1), (0x0062, 0x0323, 0x1E05),
   (0x0063, 0x0301, 0x0107), (0x0064, 0x0323, 0x1E0D), (0x0065, 0x0301, 0x00E9), (0x0065, 0x0323, 0x1EB9),
   (0x0069, 0x0301, 0x00ED), (0x0069, 0x0323, 0x1ECB), (0x0075, 0x0301, 0x00FA), (0x0075, 0x0323, 0x1EE5),
   (0x0928, 0x093C, 0x0929), (0x0930, 0x093C, 0x0931), (0x09C7, 0x09BE, 0x09CB), (0x0B47, 0x0B3E, 0x0B4B),
   (0x0BC6, 0x0BBE, 0x0BCA), (0x0C46, 0x0C56, 0x0C48), (0x0CBF, 0x0CD5, 0x0CC0), (0x0CC6, 0x0CD5, 0x0CC7),
   (0x0D46, 0x0D3E, 0x0D4A), (0x0DD9, 0x0DCA, 0x0DDA), (0x0DD9, 0x0DCF, 0x0DDC), (0x0DDC, 0x0DCA, 0x0DDD),
   (0x1025, 0x102E, 0x1026), (0x1B3E, 0x1B35, 0x1B40)]

/-- Characters that are written as a sequence and never composed again. -/
def onlyDecomposed : List (Nat × Nat × Nat) := [(0x0915, 0x093C, 0x0958)]

/-- The classes of combining marks; all other characters have class zero. -/
def combiningClasses : List (Nat × List Nat) :=
  [(230, [0x0300, 0x0301, 0x0730, 0x0951, 0x0953, 0x1B6B]), (220, [0x0323, 0x0952, 0x0F35, 0x1B6C, 0x1CED]),
   (216, [0x0F39]), (10, [0x05B0]), (27, [0x064B]), (32, [0x0650]), (36, [0x0711]), (91, [0x0C56]),
   (129, [0x0F71]), (130, [0x0F72]), (224, [0x302E]),
   (7, [0x093C, 0x09BC, 0x0A3C, 0x0ABC, 0x0B3C, 0x0CBC, 0x1037, 0x1B34, 0x1C37]),
   (9, [0x094D, 0x09CD, 0x0A4D, 0x0ACD, 0x0B4D, 0x0BCD, 0x0C4D, 0x0CCD, 0x0D4D, 0x0DCA, 0x1039, 0x103A, 0x17D2,
        0x1A60, 0x1B44, 0x2D7F, 0xA806, 0xA9C0, 0x11046, 0x1107F, 0x111C0, 0x1134D, 0x11D45])]

def combiningClass (c : Nat) : Nat := ((combiningClasses.find? (·.2.contains c)).map (·.1)).getD 0

/-! ### Decomposition -/

/-- The full sequence of a character; no listed character needs more than three steps. -/
def fullSequence : Nat → Nat → List Nat
  | 0, c => [c]
  | fuel + 1, c =>
    if isSyllable c then syllableParts c
    else
      match (compositions ++ onlyDecomposed).find? (·.2.2 == c) with
      | some (a, b, _) => fullSequence fuel a ++ fullSequence fuel b
      | none => [c]

def insertMark (c : Nat) : List Nat → List Nat
  | [] => [c]
  | d :: ds => if combiningClass c < combiningClass d then c :: d :: ds else d :: insertMark c ds

def orderMarks (run : List Nat) : List Nat → List Nat
  | [] => run
  | c :: cs => if combiningClass c == 0 then run ++ c :: orderMarks [] cs else orderMarks (insertMark c run) cs

def decompose (s : List Nat) : List Nat := orderMarks [] (s.flatMap (fullSequence 3))

/-! ### Composition -/

def composePair? (a b : Nat) : Option Nat :=
  if hangulL ≤ a && a < hangulL + 19 && hangulV ≤ b && b < hangulV + 21 then
    some (hangulS + (a - hangulL) * hangulN + (b - hangulV) * 28)
  else if isSyllable a && (a - hangulS) % 28 == 0 && hangulT < b && b < hangulT + 28 then
    some (a + (b - hangulT))
  else (compositions.find? fun (x, y, _) => x == a && y == b).map (·.2.2)

/-- Compose from a starter on. `held` are the marks after it that stay; a mark joins the
starter unless a mark of its class or a higher one stands between. -/
def composeFrom (starter : Option Nat) (held : List Nat) : List Nat → List Nat
  | [] => starter.toList ++ held
  | c :: cs =>
    let last := ((held.getLast?).map combiningClass).getD 0
    let blocked := !held.isEmpty && (last == 0 || combiningClass c ≤ last)
    match starter, (if blocked then none else starter.bind fun s => composePair? s c) with
    | _, some composed => composeFrom (some composed) held cs
    | starter, none =>
      if combiningClass c == 0 then starter.toList ++ held ++ composeFrom (some c) [] cs
      else composeFrom starter (held ++ [c]) cs

def compose (s : List Nat) : List Nat := composeFrom none [] (decompose s)

end GlyphRules.Text
