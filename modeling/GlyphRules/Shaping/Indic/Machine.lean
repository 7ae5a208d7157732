import GlyphRules.Shaping.Pattern

/-! The syllables of Indic scripts, as patterns of categories. -/
namespace GlyphRules.Shaping.Indic
open Pattern

def consonant : Pattern := oneOf "C" ["Ra"]
def joiner : Pattern := oneOf "ZWJ" ["ZWNJ"]
def nuktas : Pattern := opt (opt (one "ZWNJ") ++ one "RS") ++ opt (one "N" ++ opt (one "N"))
def reph : Pattern := alt (one "Ra" ++ one "H") (one "Repha")
def consonantN : Pattern := consonant ++ opt (one "ZWJ") ++ opt nuktas
def forcedRakar : Pattern := one "ZWJ" ++ one "H" ++ one "ZWJ" ++ one "Ra"
def symbol : Pattern := one "Symbol" ++ opt (one "N")
def matraGroup : Pattern := many joiner ++ one "M" ++ opt (one "N") ++ opt (alt (one "H") forcedRakar)
def syllableTail : Pattern :=
  opt (opt joiner ++ one "SM" ++ opt (one "SM") ++ opt (one "ZWNJ")) ++ many (one "A")
def halantGroup : Pattern := opt joiner ++ one "H" ++ opt (one "ZWJ" ++ opt (one "N"))
def finalHalantGroup : Pattern := alt halantGroup (one "H" ++ one "ZWNJ")
def medialGroup : Pattern := opt (one "CM")
def halantOrMatraGroup : Pattern := alt finalHalantGroup (many matraGroup)
def complexTail : Pattern :=
  many (halantGroup ++ consonantN) ++ medialGroup ++ halantOrMatraGroup ++ syllableTail
def lead : Pattern := opt (oneOf "Repha" ["CS"])

def kinds : SyllableKinds :=
  [("consonant_syllable", lead ++ consonantN ++ complexTail),
   ("vowel_syllable", opt reph ++ one "V" ++ opt nuktas ++ alt complexTail (one "ZWJ")),
   ("standalone_cluster",
     alt (lead ++ one "PLACEHOLDER") (opt reph ++ one "DOTTEDCIRCLE") ++ opt nuktas ++ complexTail),
   ("symbol_cluster", symbol ++ syllableTail),
   ("broken_cluster", opt reph ++ opt nuktas ++ complexTail),
   ("other", any)]

end GlyphRules.Shaping.Indic
