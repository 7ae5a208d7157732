import GlyphRules.Proofs.Shaping.Joining

/-! Transparent letters.

The letters around a transparent letter join as if it were not there (`joinArabic_transparent`). -/
namespace GlyphRules.Shaping.Arabic

open Step List

variable {characters : Characters} {codes : List Nat}

def seen (characters : Characters) (code : Nat) : Bool := isSeen (letterKind characters code)

lemma transition_total : ∀ state < 7, ∀ kind ∈ letterKinds,
    ∃ t ∈ transition state kind, t.2.2 < 7 := by
  decide

lemma joinFrom_seen (hstate : state < 7)
    (hknown : ∀ c ∈ codes, seen characters c → letterKind characters c ∈ letterKinds) :
    ∃ before forms, joinFrom characters state codes = .ok (before, forms) ∧ forms.length = codes.length ∧
      (∀ p ∈ codes.zip forms, seen characters p.1 = false → p.2 = "NONE") ∧
      joinFrom characters state (codes.filter (seen characters)) =
        .ok (before, ((codes.zip forms).filter (seen characters ·.1)).map (·.2)) := by
  induction codes generalizing state with
  | nil => exact ⟨none, [], rfl, rfl, by simp, rfl⟩
  | cons c codes ih =>
    have hrest := fun {state} (h : state < 7) => ih h fun c hc => hknown c (.tail _ hc)
    cases hseen : seen characters c with
    | false =>
      obtain ⟨before, forms, hjoin, hlength, hnone, hletters⟩ := hrest hstate
      have hT : letterKind characters c = "T" := by simpa [seen, isSeen] using hseen
      refine ⟨before, "NONE" :: forms, ?_, by simp [hlength], by simpa using hnone, by simpa [hseen] using hletters⟩
      simp [joinFrom, hT, hjoin, pure, Except.pure]
    | true =>
      have hT : letterKind characters c ≠ "T" := by simpa [seen, isSeen] using hseen
      obtain ⟨⟨settles, own, state'⟩, htransition, hstate'⟩ :=
        transition_total state hstate _ (hknown c mem_cons_self hseen)
      obtain ⟨before, forms, hjoin, hlength, hnone, hletters⟩ := hrest hstate'
      refine ⟨some settles, before.getD own :: forms, ?_, by simp [hlength], by simpa [hseen] using hnone, ?_⟩
      · simp [joinFrom, hT, Option.mem_def.1 htransition, hjoin, pure, Except.pure]
      · simp [hseen, joinFrom, hT, Option.mem_def.1 htransition, hletters, pure, Except.pure]

/-- The characters of a session, each with its form. -/
def joinings (s : Session) : List (Nat × Option String) := s.buffer.items.map fun i => (i.codepoint.getD 0, i.joining)

abbrev codesOf (s : Session) : List Nat := s.buffer.items.map fun i => i.codepoint.getD 0

def SameJoinings (s t : Session) : Prop := joinings t = joinings s

instance : Std.Refl SameJoinings := ⟨fun _ => rfl⟩

instance : Trans SameJoinings SameJoinings SameJoinings := ⟨fun h h' => h'.trans h⟩

lemma keeps_maskForms : Keeps SameJoinings Shape.maskForms := by
  have said message : Keeps SameJoinings (Shape.say message) := .modify fun s => rfl
  have listed : Keeps SameJoinings (Shape.sayWith "Assigned Arabic joining" ["arabic_joining"]) := by
    refine .bind (.bind .get fun _ => .pure _) fun b => ?_
    split
    · exact said _
    · exact .bind (.ofExcept _) fun _ => said _
  refine .bind listed fun _ => ?_
  refine .bind .get fun s => ?_
  refine .bind (.forIn _ _ fun f _ _ => ?_) fun _ => .pure _
  split
  · exact .bind (.modify fun s => by simp [SameJoinings, joinings]) fun _ => .pure _
  · exact .pure _

lemma joinArabic_joinings (hscript : s.buffer.script ≠ some "Mongolian")
    (hknown : ∀ c ∈ codesOf s, seen s.characters c → letterKind s.characters c ∈ letterKinds) :
    (joinings (Shape.joinArabic.on s).2).map (·.1) = codesOf s ∧
    (∀ p ∈ joinings (Shape.joinArabic.on s).2, seen s.characters p.1 = false → p.2 = some "NONE") ∧
    (joinLetters s.characters ((codesOf s).filter (seen s.characters))).map (·.map some) =
      .ok (((joinings (Shape.joinArabic.on s).2).filter (seen s.characters ·.1)).map (·.2)) := by
  obtain ⟨before, forms, hjoin, hlength, hnone, hletters⟩ := joinFrom_seen (by decide : 0 < 7) hknown
  have hstart : (ofExcept (joinLetters s.characters (codesOf s)) : Shape (List String)).on s = (.ok forms, s) := by
    rw [on_ofExcept, joinLetters, hjoin]
    rfl
  have hafter : joinings (Shape.joinArabic.on s).2 = ((codesOf s).zip forms).map fun p => (p.1, some p.2) := by
    rw [Shape.joinArabic, on_get_bind, on_bind_ok hstart, if_neg (by simpa using hscript)]
    refine (keeps_maskForms _).trans ?_
    simp [joinings, codesOf, zip, map_zipWith, zipWith_map_left]
  rw [hafter, joinLetters, hletters]
  refine ⟨?_, ?_, ?_⟩
  · rw [map_map]
    exact map_fst_zip (Nat.le_of_eq hlength.symm)
  · intro q hq hseen
    obtain ⟨p, hp, rfl⟩ := mem_map.1 hq
    exact congrArg some (hnone p hp hseen)
  · simp [filter_map, Function.comp_def, Except.map, pure, Except.pure]

/-- **Transparent letters stay without a form, and the letters around them take those that they would take without
them.** -/
theorem joinArabic_transparent {s t : Session} (hcharacters : t.characters = s.characters)
    (hscript : ∀ u ∈ [s, t], u.buffer.script ≠ some "Mongolian")
    (hknown : ∀ c ∈ codesOf s, seen s.characters c → letterKind s.characters c ∈ letterKinds)
    (hletters : (codesOf s).filter (seen s.characters) = (codesOf t).filter (seen s.characters)) :
    ((joinings (Shape.joinArabic.on s).2).filter (seen s.characters ·.1)).map (·.2) =
      ((joinings (Shape.joinArabic.on t).2).filter (seen s.characters ·.1)).map (·.2) ∧
    ∀ u ∈ [s, t], (joinings (Shape.joinArabic.on u).2).map (·.1) = codesOf u ∧
      ∀ p ∈ joinings (Shape.joinArabic.on u).2, seen s.characters p.1 = false → p.2 = some "NONE" := by
  have hknown' : ∀ c ∈ codesOf t, seen t.characters c → letterKind t.characters c ∈ letterKinds := by
    intro c hc hseen
    rw [hcharacters] at hseen ⊢
    exact hknown c (mem_filter.1 (hletters ▸ mem_filter.2 ⟨hc, hseen⟩)).1 hseen
  obtain ⟨codes, nones, forms⟩ := joinArabic_joinings (hscript s (by simp)) hknown
  obtain ⟨codes', nones', forms'⟩ := joinArabic_joinings (hscript t (by simp)) hknown'
  rw [hcharacters] at nones' forms'
  rw [hletters, forms'] at forms
  refine ⟨(Except.ok.inj forms).symm, fun u hu => ?_⟩
  rcases mem_pair.1 hu with rfl | rfl
  · exact ⟨codes, nones⟩
  · exact ⟨codes', nones'⟩

/-- A session with a text of lettered characters. -/
def spelled (codes : List Nat) : Session :=
  { book := {}, font := ⟨[]⟩, characters := lettered, buffer.items := codes.map fun c => { codepoint := some c } }

/-- A word with a transparent letter within, and the same word with two behind. -/
theorem joinArabic_transparent_word :
    ((joinings (Shape.joinArabic.on (spelled [3, 4, 3, 2])).2).filter (seen lettered ·.1)).map (·.2) =
      ((joinings (Shape.joinArabic.on (spelled [3, 3, 2, 4, 4])).2).filter (seen lettered ·.1)).map (·.2) :=
  (@joinArabic_transparent (spelled [3, 4, 3, 2]) (spelled [3, 3, 2, 4, 4]) rfl (by decide) (by decide) (by decide)).1

end GlyphRules.Shaping.Arabic
