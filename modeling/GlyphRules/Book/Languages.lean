import GlyphRules.Book.Basic

/-! The scripts and languages that a book speaks of. -/
namespace GlyphRules

/-- Add a language system: a script is known from its first mention on, a
wildcard language adds none. -/
def addLanguage (scripts : List (String × List String)) (p : LanguageSystem) :
    List (String × List String) :=
  Dict.alter scripts p.1 [] fun ls => if p.2 == "*" || ls.contains p.2 then ls else ls ++ [p.2]

def Languages.systems? : Languages → Except Fault (List LanguageSystem)
  | .pairs l => .ok l
  | .text s => if s.isEmpty then .ok [] else .error .badValue

def Rule.systems (r : Rule) : Except Fault (List LanguageSystem) :=
  match r.languages with
  | none => .ok []
  | some l => l.systems?

namespace Book

def routineSystems (b : Book) (i : RoutineId) : Except Fault (List LanguageSystem) :=
  let r := b.routine i
  if r.languages.isEmpty then return (← (b.rulesOf i).mapM Rule.systems).flatten
  else r.languages.systems?

def collectLanguages (b : Book) : Except Fault (List (String × List String)) := do
  let systems ← b.order.mapM b.routineSystems
  return systems.flatten.foldl addLanguage []

end Book

namespace Act

def hoistLanguages : Act Unit := do
  let scripts ← ofExcept (← get).collectLanguages
  modify fun b => { b with scripts }

def hasScript (script : String) : Act Bool := do
  hoistLanguages
  return Dict.has (← get).scripts script

end Act
end GlyphRules
