import GlyphRules.Proofs.Step
import GlyphRules.Shaping.Arabic

/-! The forms of letters that join.

The form of a letter says on which sides it is joined to its neighbours, past the transparent
letters. The machine settles it at the letter after: if the two are not joined, it is left without a
form. So all forms are right exactly when every letter is joined to the one after it
(`joinLetters_forms_iff`). -/
namespace GlyphRules.Shaping.Arabic

open Step List

/-- Whether a letter and the one after it are joined. -/
def joined (kind next : Option String) : Bool :=
  (kind == some "L" || kind == some "D") && (next == some "R" || next == some "D")

/-- The form of a letter by whether it is joined to the letter before and to the one after. -/
def formOf : Bool → Bool → String
  | false, false => "isol"
  | false, true => "init"
  | true, true => "medi"
  | true, false => "fina"

def isSeen (kind : String) : Bool := kind != "T"

/-- The nearest letter before a place that is not transparent. -/
def before (kinds : List String) (n : Nat) : Option String := ((kinds.take n).filter isSeen).getLast?

/-- The nearest letter after a place that is not transparent. -/
def after (kinds : List String) (n : Nat) : Option String := (kinds.drop (n + 1)).find? isSeen

/-! ### The machine -/

/-- The state behind a letter that is joined to the one before it or not. -/
def stateBehind : Option String → Bool → Nat
  | some "R", _ => 1
  | some "L", _ => 2
  | some "D", back => if back then 3 else 2
  | _, _ => 0

/-- The form that the next letter settles for a letter. -/
def settled (kind : Option String) (back : Bool) (next : String) : String :=
  if joined kind (some next) then formOf back true else "none"

/-- The form of a letter for now. -/
def formSoFar (previous : Option String) (kind : String) : String :=
  if kind == "U" then "none" else formOf (joined previous (some kind)) false

/-- The letters that a state remembers, each with whether it is joined to the one before. -/
def memories : List (Option String × Bool) :=
  [(none, false), (some "U", false), (some "L", false), (some "R", false), (some "R", true), (some "D", false),
   (some "D", true)]

lemma transition_eq : ∀ m ∈ memories, ∀ kind ∈ ["U", "L", "R", "D"],
    transition (stateBehind m.1 m.2) kind = some (settled m.1 m.2 kind, formSoFar m.1 kind,
      stateBehind (some kind) (joined m.1 (some kind))) ∧ (some kind, joined m.1 (some kind)) ∈ memories := by
  decide

/-- The forms of a text behind a letter, as they stand when all of it is read. -/
def formsBehind (previous : Option String) : List String → List String
  | [] => []
  | kind :: rest =>
    if isSeen kind then
      ((rest.find? isSeen).map (settled (some kind) (joined previous (some kind)))).getD (formSoFar previous kind) ::
        formsBehind (some kind) rest
    else "NONE" :: formsBehind previous rest

variable {characters : Characters} {codes : List Nat}

lemma joinFrom_eq (hkinds : ∀ c ∈ codes, letterKind characters c ∈ ["U", "L", "R", "D", "T"])
    {m} (hm : m ∈ memories) :
    joinFrom characters (stateBehind m.1 m.2) codes =
      .ok (((codes.map (letterKind characters)).find? isSeen).map (settled m.1 m.2),
        formsBehind m.1 (codes.map (letterKind characters))) := by
  -- The state stands for the last letter that was seen; a transparent letter leaves it alone.
  induction codes generalizing m with
  | nil => rfl
  | cons c rest ih =>
    have hrest := fun {m} => @ih (fun c hc => hkinds c (.tail _ hc)) m
    have hc := hkinds c mem_cons_self
    rw [joinFrom, map_cons]
    generalize letterKind characters c = kind at hc ⊢
    by_cases hT : kind = "T"
    · subst hT
      rw [hrest hm]
      rfl
    · have hkind : kind ∈ ["U", "L", "R", "D"] := by simpa [hT] using hc
      have hseen : isSeen kind = true := by simpa [isSeen] using hT
      obtain ⟨htransition, hnext⟩ := transition_eq m hm kind hkind
      simp only [beq_iff_eq, hT, htransition, find?_cons_of_pos hseen, formsBehind, hseen]
      rw [hrest hnext]
      rfl

lemma getElem?_formsBehind (previous) (kinds) (n) :
    (formsBehind previous kinds)[n]? = kinds[n]?.map fun kind =>
      if isSeen kind then
        ((after kinds n).map (settled (some kind) (joined ((before kinds n).or previous) (some kind)))).getD
          (formSoFar ((before kinds n).or previous) kind)
      else "NONE" := by
  induction kinds generalizing previous n with
  | nil => rfl
  | cons kind rest ih =>
    cases n with
    | zero => cases hseen : isSeen kind <;> simp [formsBehind, hseen, before, after]
    | succ n =>
      cases hseen : isSeen kind with
      | false => simp [formsBehind, hseen, before, after, ih]
      | true =>
        have hbefore : (before (kind :: rest) (n + 1)).or previous = (before rest n).or (some kind) := by
          simp [before, hseen, getLast?_cons]
        have hafter : after (kind :: rest) (n + 1) = after rest n := rfl
        simp [formsBehind, hseen, hbefore, hafter, ih]

/-- **Every letter that takes a form has the one that its neighbours call for exactly when it is joined to the one
after it**, if there is one. -/
theorem joinLetters_forms_iff {kinds : List String} (hread : codes.map (letterKind characters) = kinds)
    (hkinds : ∀ kind ∈ kinds, kind ∈ ["U", "L", "R", "D", "T"]) :
    (∃ forms, joinLetters characters codes = .ok forms ∧ ∀ n kind, kinds[n]? = some kind → kind ≠ "U" → kind ≠ "T" →
      forms[n]? = some (formOf (joined (before kinds n) (some kind)) (joined (some kind) (after kinds n)))) ↔
    ∀ n kind, kinds[n]? = some kind → kind ≠ "U" → kind ≠ "T" → (after kinds n).isSome →
      joined (some kind) (after kinds n) = true := by
  have hforms : joinLetters characters codes = .ok (formsBehind none kinds) := by
    have hrun := joinFrom_eq (by simpa [← hread] using hkinds) (show (none, false) ∈ memories by decide)
    unfold joinLetters
    rw [show joinFrom characters 0 codes = _ from hrun, hread]
    rfl
  rw [hforms]
  simp only [Except.ok.injEq, exists_eq_left', getElem?_formsBehind]
  refine forall₂_congr fun n kind => forall₃_congr fun hkind hU hT => ?_
  have hseen : isSeen kind = true := by simpa [isSeen] using hT
  simp only [hkind, Option.map_some, hseen, Option.or_none]
  cases after kinds n with
  | none =>
    have hlast : joined (some kind) none = false := by simp [joined]
    simp [formSoFar, hU, hlast]
  | some next =>
    cases hjoined : joined (some kind) (some next) with
    | true => simp [settled, hjoined]
    | false => cases joined (before kinds n) (some kind) <;> simp [settled, hjoined, formOf]

/-- Letters of each kind by number. -/
def lettered : Characters := ⟨["U", "L", "R", "D", "T"].zipIdx.map fun k => (k.2, [("Joining_Type", k.1)])⟩

/-- With a transparent letter in between: an initial, a medial and a final form. -/
theorem joinLetters_forms_word : ∃ forms, joinLetters lettered [3, 4, 3, 2] = .ok forms ∧ forms[2]? = some "medi" := by
  have hread : [3, 4, 3, 2].map (letterKind lettered) = ["D", "T", "D", "R"] := by decide
  obtain ⟨forms, hforms, hform⟩ := (joinLetters_forms_iff hread (by decide)).2 (by
    intro n kind hkind
    rcases n with _ | _ | _ | _ | n <;> cases hkind <;> decide)
  exact ⟨forms, hforms, hform 2 "D" rfl (by decide) (by decide)⟩

/-- **A letter that could join loses its form before one that never joins.** -/
theorem joinLetters_loses_form : joinLetters lettered [3, 0] = .ok ["none", "none"] ∧
    formOf (joined (before ["D", "U"] 0) (some "D")) (joined (some "D") (after ["D", "U"] 0)) = "isol" := by
  decide

end GlyphRules.Shaping.Arabic
