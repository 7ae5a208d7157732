import GlyphRules.Command.Workshop

/-! Commands on anchors: define them, load them from the font, attach glyphs by them. -/
namespace GlyphRules.Command

/-- Which glyphs are attached to which: marks to marks, marks to bases, or letters in a row. -/
inductive AttachKind where
  | marks | bases | cursive
deriving DecidableEq

namespace Phrase

def anchors (vars : Variables) : Phrase (Selection × List (String × Int × Int)) := do
  let s ← glyphs
  let l ← several do
    let n ← name
    sign "<"
    let x ← value vars
    let y ← value vars
    sign ">"
    pure (n, x, y)
  pure (s, l)

def attach : Phrase (String × String × AttachKind) := do
  sign "&"
  let base ← name
  sign "&"
  let mark ← name
  let kind ← word [("marks", AttachKind.marks), ("bases", .bases), ("cursive", .cursive)]
  pure (base, mark, kind)

end Phrase

def setAnchor (b : Book) (glyph anchor : String) (p : Point) : Book :=
  { b with anchors := Dict.alter b.anchors glyph [] fun l => Dict.set l anchor p }

def anchored (b : Book) (anchor : String) : List (String × Point) :=
  b.anchors.filterMap fun (g, l) => (Dict.get? l anchor).map (g, ·)

def categoryOf (b : Book) (font : Font) (glyph : String) : Option String :=
  match Dict.get? b.glyphClasses glyph with
  | some c => c
  | none => (font.find? glyph).bind (·.category)

def attachment (b : Book) (font : Font) (base mark : String) (kind : AttachKind) : Attachment :=
  let ofCategory (c : String) (l : List (String × Point)) := l.filter fun (g, _) => categoryOf b font g == some c
  { baseName := some base
    markName := some mark
    bases := ofCategory (if kind == .marks then "mark" else "base") (anchored b base)
    marks := if kind == .cursive then anchored b mark else ofCategory "mark" (anchored b mark)
    font := some font }

namespace Craft

def anchors (text : String) : Craft Unit := do
  let (s, l) ← read Phrase.anchors text
  for g in ← resolve s do
    for (n, x, y) in l do
      onBook fun b => setAnchor b g n (.fixed (.int x), .fixed (.int y))

def loadAnchors : Craft Unit := do
  for g in (← get).font.glyphs.filter (·.exported) do
    for a in g.anchors do
      onBook fun b => setAnchor b g.name a.name (.fixed a.x, .fixed a.y)

def attach (text : String) : Craft (List Product) := do
  let (base, mark, kind) ← read (fun _ => Phrase.attach) text
  let w ← get
  let a := attachment w.book w.font base mark kind
  return [.routine (← routineOf [{ body := .attachment a, languages := some (.pairs []) }])]

end Craft
end GlyphRules.Command
