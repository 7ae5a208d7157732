/-! Scripts: their direction, their tag in fonts, and the way they are shaped. -/
namespace GlyphRules.Shaping

def rightToLeft : List String :=
  ["Arabic", "Hebrew", "Syriac", "Thaana", "Cypriot", "Kharoshthi", "Phoenician", "Nko", "Lydian", "Avestan",
   "Imperial_Aramaic", "Inscriptional_Parthian", "Inscriptional_Pahlavi", "Old_South_Arabian", "Old_Turkic",
   "Samaritan", "Mandaic", "Meroitic_Cursive", "Meroitic_Hieroglyphs", "Manichaean", "Mende_Kikakui",
   "Nabataean", "Old_North_Arabian", "Palmyrene", "Psalter_Pahlavi", "Hatran", "Adlam", "Hanifi_Rohingya",
   "Old_Sogdian", "Sogdian", "Elymaic", "Chorasmian", "Yezidi"]

def severalDirections : List String := ["Old_Hungarian", "Old_Italic", "Runic"]

def scriptDirection (script : Option String) : String :=
  match script with
  | none => "LTR"
  | some s => if rightToLeft.contains s then "RTL" else if severalDirections.contains s then "invalid" else "LTR"

def scriptTags : List (String × String) :=
  [("Common", "zyyy"), ("Inherited", "zinh"), ("Unknown", "zzzz"), ("Arabic", "arab"), ("Armenian", "armn"),
   ("Bengali", "bng2"), ("Cyrillic", "cyrl"), ("Devanagari", "dev2"), ("Georgian", "geor"), ("Greek", "grek"),
   ("Gujarati", "gjr2"), ("Gurmukhi", "gur2"), ("Hangul", "hang"), ("Han", "hani"), ("Hebrew", "hebr"),
   ("Hiragana", "hira"), ("Kannada", "knd2"), ("Katakana", "kana"), ("Lao", "laoo"), ("Latin", "latn"),
   ("Malayalam", "mlm2"), ("Oriya", "ory2"), ("Tamil", "tml2"), ("Telugu", "tel2"), ("Thai", "thai"),
   ("Tibetan", "tibt"), ("Bopomofo", "bopo"), ("Braille", "brai"), ("Canadian_Syllabics", "cans"),
   ("Cherokee", "cher"), ("Ethiopic", "ethi"), ("Khmer", "khmr"), ("Mongolian", "mong"), ("Myanmar", "mym2"),
   ("Ogham", "ogam"), ("Runic", "runr"), ("Sinhala", "sinh"), ("Syriac", "syrc"), ("Thaana", "thaa"),
   ("Yi", "yiii"), ("Deseret", "dsrt"), ("Gothic", "goth"), ("Old_Italic", "ital"), ("Buhid", "buhd"),
   ("Hanunoo", "hano"), ("Tagalog", "tglg"), ("Tagbanwa", "tagb"), ("Cypriot", "cprt"), ("Limbu", "limb"),
   ("Linear_B", "linb"), ("Osmanya", "osma"), ("Shavian", "shaw"), ("Tai_Le", "tale"), ("Ugaritic", "ugar"),
   ("Buginese", "bugi"), ("Coptic", "copt"), ("Glagolitic", "glag"), ("Kharoshthi", "khar"),
   ("New_Tai_Lue", "talu"), ("Old_Persian", "xpeo"), ("Syloti_Nagri", "sylo"), ("Tifinagh", "tfng"),
   ("Balinese", "bali"), ("Cuneiform", "xsux"), ("Nko", "nkoo"), ("Phags_Pa", "phag"), ("Phoenician", "phnx"),
   ("Carian", "cari"), ("Cham", "cham"), ("Kayah_Li", "kali"), ("Lepcha", "lepc"), ("Lycian", "lyci"),
   ("Lydian", "lydi"), ("Ol_Chiki", "olck"), ("Rejang", "rjng"), ("Saurashtra", "saur"),
   ("Sundanese", "sund"), ("Vai", "vaii"), ("Avestan", "avst"), ("Bamum", "bamu"),
   ("Egyptian_Hieroglyphs", "egyp"), ("Imperial_Aramaic", "armi"), ("Inscriptional_Pahlavi", "phli"),
   ("Inscriptional_Parthian", "prti"), ("Javanese", "java"), ("Kaithi", "kthi"), ("Lisu", "lisu"),
   ("Meetei_Mayek", "mtei"), ("Old_South_Arabian", "sarb"), ("Old_Turkic", "orkh"), ("Samaritan", "samr"),
   ("Tai_Tham", "lana"), ("Tai_Viet", "tavt"), ("Batak", "batk"), ("Brahmi", "brah"), ("Mandaic", "mand"),
   ("Chakma", "cakm"), ("Meroitic_Cursive", "merc"), ("Meroitic_Hieroglyphs", "mero"), ("Miao", "plrd"),
   ("Sharada", "shrd"), ("Sora_Sompeng", "sora"), ("Takri", "takr"), ("Bassa_Vah", "bass"),
   ("Caucasian_Albanian", "aghb"), ("Duployan", "dupl"), ("Elbasan", "elba"), ("Grantha", "gran"),
   ("Khojki", "khoj"), ("Khudawadi", "sind"), ("Linear_A", "lina"), ("Mahajani", "mahj"),
   ("Manichaean", "mani"), ("Mende_Kikakui", "mend"), ("Modi", "modi"), ("Mro", "mroo"),
   ("Nabataean", "nbat"), ("Old_North_Arabian", "narb"), ("Old_Permic", "perm"), ("Pahawh_Hmong", "hmng"),
   ("Palmyrene", "palm"), ("Pau_Cin_Hau", "pauc"), ("Psalter_Pahlavi", "phlp"), ("Siddham", "sidd"),
   ("Tirhuta", "tirh"), ("Warang_Citi", "wara"), ("Ahom", "ahom"), ("Anatolian_Hieroglyphs", "hluw"),
   ("Hatran", "hatr"), ("Multani", "mult"), ("Old_Hungarian", "hung"), ("Signwriting", "sgnw"),
   ("Adlam", "adlm"), ("Bhaiksuki", "bhks"), ("Marchen", "marc"), ("Osage", "osge"), ("Tangut", "tang"),
   ("Newa", "newa"), ("Masaram_Gondi", "gonm"), ("Nushu", "nshu"), ("Soyombo", "soyo"),
   ("Zanabazar_Square", "zanb"), ("Dogra", "dogr"), ("Gunjala_Gondi", "gong"), ("Hanifi_Rohingya", "rohg"),
   ("Makasar", "maka"), ("Medefaidrin", "medf"), ("Old_Sogdian", "sogo"), ("Sogdian", "sogd"),
   ("Elymaic", "elym"), ("Nandinagari", "nand"), ("Nyiakeng_Puachue_Hmong", "hmnp"), ("Wancho", "wcho"),
   ("Chorasmian", "chrs"), ("Dives_Akuru", "diak"), ("Khitan_Small_Script", "kits"), ("Yezidi", "yezi")]

def scriptTag (script : Option String) : String :=
  ((script.bind fun s => (scriptTags.find? (·.1 == s)).map (·.2))).getD "DFLT"

/-! ### Ways of shaping -/

/-- The ways in which scripts are shaped. -/
inductive ShaperKind where
  | base
  | arabic
  | hangul
  | indic
  | khmer
  | myanmar
  | universal
deriving DecidableEq

def ShaperKind.name : ShaperKind → String
  | base => "BaseShaper"
  | arabic => "ArabicShaper"
  | hangul => "HangulShaper"
  | indic => "IndicShaper"
  | khmer => "KhmerShaper"
  | myanmar => "MyanmarShaper"
  | universal => "USEShaper"

/-- Scripts whose letters join, with the tag that a font must know for it. -/
def joiningScripts : List (String × String) :=
  [("Mongolian", "mong"), ("Syriac", "syrc"), ("Nko", "nko "), ("Phags_Pa", "phag"), ("Mandaic", "mand"),
   ("Manichaean", "mand"), ("Psalter_Pahlavi", "phlp"), ("Adlam", "adlm"), ("Hanifi_Rohingya", "rohg"),
   ("Sogdian", "sogd")]

/-- Indic scripts, with the tag of those that have a third version. -/
def indicScripts : List (String × Option String) :=
  [("Bengali", some "bng3"), ("Devanagari", some "dev3"), ("Gujarati", some "gjr3"),
   ("Gurmukhi", some "gur3"), ("Kannada", some "knd3"), ("Malayalam", some "mlm3"), ("Oriya", some "ory3"),
   ("Tamil", some "tml3"), ("Telugu", some "tel3"), ("Sinhala", none)]

/-- The scripts that are shaped by general syllable rules. -/
def universalScripts : List String :=
  ["Tibetan", "Buhid", "Hanunoo", "Tagalog", "Tagbanwa", "Limbu", "Tai_Le", "Buginese", "Kharoshthi",
   "Syloti_Nagri", "Tifinagh", "Balinese", "Cham", "Kayah_Li", "Lepcha", "Rejang", "Saurashtra", "Sundanese",
   "Egyptian_Hieroglyphs", "Javanese", "Kaithi", "Meetei_Mayek", "Tai_Tham", "Tai_Viet", "Batak", "Brahmi",
   "Chakma", "Sharada", "Takri", "Duployan", "Grantha", "Khojki", "Khudawadi", "Mahajani", "Modi",
   "Pahawh_Hmong", "Siddham", "Tirhuta", "Ahom", "Bhaiksuki", "Marchen", "Newa", "Masaram_Gondi", "Soyombo",
   "Zanabazar_Square", "Dogra", "Gunjala_Gondi", "Makasar", "Nandinagari"]

end GlyphRules.Shaping
