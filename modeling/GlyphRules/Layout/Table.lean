import GlyphRules.Rule.Basic

/-! Layout tables as a font holds them.

A table has scripts, features and lookups; everything refers by number. What a
subtable holds depends on the type of its lookup. -/
namespace GlyphRules.Layout

/-- The two layout tables. -/
inductive TableKind where
  | substitution
  | positioning
deriving DecidableEq

def TableKind.tag : TableKind → String
  | .substitution => "GSUB"
  | .positioning => "GPOS"

abbrev CallRecords := List (Nat × Nat)

/-- A rule of a context; its glyphs are names or numbers of classes. -/
structure ContextRule (α : Type) where
  input : List α := []
  before : List α := []
  after : List α := []
  calls : CallRecords := []

abbrev ClassMap := List (String × Nat)

/-- A context in one of its formats. Contexts without neighbours have no classes for them. -/
inductive Context where
  | glyphs (coverage : List String) (sets : List (Option (List (ContextRule String))))
  | classes (coverage : List String) (input before after : Option ClassMap)
      (sets : List (Option (List (ContextRule Nat))))
  | coverage (input before after : List (List String)) (calls : CallRecords)
  | unknown

abbrev Anchors := List (Option (Number × Number))

inductive Subtable where
  | single (mapping : List (String × String))
  | multiple (mapping : List (String × List String))
  | alternate (mapping : List (String × List String))
  | ligature (mapping : List (String × List (List String × String)))
  | context (c : Context)
  | reverse (coverage output : List String) (before after : List (List String))
  | value (coverage : List String) (v : ValueRecord)
  | values (coverage : List String) (vs : List ValueRecord)
  | pairs (coverage : List String) (sets : List (List (String × ValueRecord × ValueRecord)))
  | classPairs (coverage : List String) (first second : ClassMap) (rows : List (List (ValueRecord × ValueRecord)))
  | cursive (coverage : List String) (records : List (Option (Number × Number) × Option (Number × Number)))
  | marks (coverage bases : List String) (classes : Nat) (marks : List (Nat × Number × Number))
      (anchors : List Anchors)
  | extension (type : Int) (sub : Subtable)
  | nothing

structure LookupTable where
  type : Int
  flags : Int := 0
  /-- The set of marks that are not passed over, if the lookup names one. -/
  filter : Option Nat := none
  subtables : List Subtable := []

structure ScriptTable where
  tag : String
  default : Option (List Nat) := none
  languages : List (String × List Nat) := []

structure LayoutTable where
  scripts : Option (List ScriptTable) := none
  features : List (String × List Nat) := []
  lookups : Option (List LookupTable) := none

/-- What is known about the glyphs of a font: their categories, and classes and sets of marks. -/
structure GlyphTable where
  categories : Option (List (String × Int)) := none
  attachment : Option (List (String × Nat)) := none
  filters : Option (List (List String)) := none

/-- Where each lookup was written, by table and number: a place and a name. -/
abbrev Origins := List (String × List (Nat × Address × Option String))

structure FontTables where
  glyphs : List String := []
  substitution : Option LayoutTable := none
  positioning : Option LayoutTable := none
  definitions : Option GlyphTable := none
  origins : Option Origins := none

namespace FontTables

def layoutTables (t : FontTables) : List LayoutTable := t.substitution.toList ++ t.positioning.toList

/-- The languages of each script; the first table that speaks of a script decides. -/
def languageSystems (t : FontTables) : List (String × List String) :=
  (t.layoutTables.flatMap fun l => l.scripts.getD []).foldl (fun known s =>
    let languages := Text.sort (Text.distinct
      ((s.default.map fun _ => "dflt").toList ++ s.languages.map (·.1)))
    if languages.isEmpty || known.any (·.1 == s.tag) then known else known ++ [(s.tag, languages)]) []

end FontTables
end GlyphRules.Layout
