import GlyphRules.Text.Case

/-! VOLT projects.

A project defines glyphs, groups of glyphs, anchors, the features of scripts and
languages, and lookups. Positionings are checked and not kept. -/
namespace GlyphRules.Volt

/-- A member of a coverage. -/
inductive Item where
  | glyph (name : String)
  | group (name : String)
  | range (first last : String)
  | list (items : List Item)

abbrev Coverage := List Item

inductive GlyphKind where
  | base | ligature | mark | component
deriving DecidableEq

def GlyphKind.ofWord? : String → Option GlyphKind
  | "BASE" => some .base
  | "LIGATURE" => some .ligature
  | "MARK" => some .mark
  | "COMPONENT" => some .component
  | _ => none

/-- The name of a kind among the glyph classes of a book. -/
def GlyphKind.text : GlyphKind → String
  | .base => "base"
  | .ligature => "ligature"
  | .mark => "mark"
  | .component => "component"

structure GlyphEntry where
  name : String
  id : Nat
  kind : Option GlyphKind := none
  components : Option Int := none

/-- A group of glyphs; its members may be left out altogether. -/
structure GroupEntry where
  name : String
  members : Option Coverage

structure AnchorEntry where
  name : String
  glyph : String
  component : Int
  x : Int
  y : Int

structure FeatureEntry where
  tag : String
  lookups : List String

structure LanguageEntry where
  tag : String
  features : List FeatureEntry

structure ScriptEntry where
  tag : String
  languages : List LanguageEntry

/-- Which marks a lookup looks at. -/
inductive MarkUse where
  | all
  | skipped
  | attached (group : String)
  | filtered (group : String)
deriving DecidableEq

/-- Where a lookup applies, or where it does not. -/
structure Context where
  excluded : Bool
  left : List Coverage
  right : List Coverage

inductive Action where
  | substitution (pairs : List (Coverage × Coverage))
  | positioning

structure LookupEntry where
  name : String
  skipBases : Bool := false
  marks : MarkUse := .all
  rightToLeft : Bool := false
  contexts : List Context := []
  action : Action

inductive Entry where
  | glyph (g : GlyphEntry)
  | group (g : GroupEntry)
  | anchor (a : AnchorEntry)
  | script (s : ScriptEntry)
  | lookup (l : LookupEntry)
  /-- A switch that is set. -/
  | setting (name : String)

abbrev Project := List Entry

/-- Whether two names differ in case at most. -/
def sameName (a b : String) : Bool := Text.lower a == Text.lower b

namespace Project

def hasGroup (p : Project) (name : String) : Bool := p.any fun
  | .group g => sameName g.name name
  | _ => false

def hasScript (p : Project) (tag : String) : Bool := p.any fun
  | .script s => sameName s.tag tag
  | _ => false

def hasLookup (p : Project) (name : String) : Bool := p.any fun
  | .lookup l => sameName l.name name
  | _ => false

def anchorsOf (p : Project) (glyph : String) : List AnchorEntry :=
  p.foldl (fun l e =>
    match e with
    | .anchor a =>
      if a.glyph != glyph then l
      else if l.any (·.name == a.name) then l.map fun b => if b.name == a.name then a else b
      else l ++ [a]
    | _ => l) []

/-- Whether a glyph has an anchor of this name at the component; a name in the same case comes
first. -/
def hasAnchor (p : Project) (glyph name : String) (component : Int) : Bool :=
  let anchors := p.anchorsOf glyph
  match (anchors.find? (·.name == name)).orElse fun _ => anchors.find? (sameName ·.name name) with
  | some a => a.component == component
  | none => false

end Project
end GlyphRules.Volt
