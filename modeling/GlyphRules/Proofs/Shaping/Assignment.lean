import GlyphRules.Proofs.Shaping.View

/-! Writing through the view.

Items put in the place of a range of the view take the place of the first item that the range shows. The other items
that it shows go, and what lies between them stays (`setSlice_rewrites`). -/
namespace GlyphRules.Shaping.Buffer

open List

section
variable {α : Type} {l : List α} {p : Nat} {ps : List Nat}

lemma flatMap_zipIdx_kept {f} {n} (h : ∀ x ∈ l.zipIdx n, f x = [x.1]) : (l.zipIdx n).flatMap f = l := by
  rw [flatMap_congr h, ← map_eq_flatMap]
  exact zipIdx_map_fst n l

/-- Places behind the first are deleted, whatever becomes of the first. -/
lemma flatMap_zipIdx_at (hp : p < l.length) (hlt : ∀ q ∈ ps, p < q) {f : α × Nat → List α}
    (h : ∀ x, x.2 ≠ p → f x = if x.2 ∈ ps then [] else [x.1]) : l.zipIdx.flatMap f = l.take p ++
      (f (l[p], p) ++ ((l.drop (p + 1)).zipIdx (p + 1)).flatMap fun x => if x.2 ∈ ps then [] else [x.1]) := by
  have hlength : (l.take p).length = p := length_take_of_le (Nat.le_of_lt hp)
  have before : (l.take p).zipIdx.flatMap f = l.take p := by
    refine flatMap_zipIdx_kept fun x hx => ?_
    have hx : x.2 < p := hlength ▸ snd_lt_of_mem_zipIdx hx
    rw [h x (Nat.ne_of_lt hx), if_neg fun hmem => Nat.lt_asymm hx (hlt _ hmem)]
  conv_lhs => rw [← take_append_drop p l, drop_eq_getElem_cons hp]
  rw [zipIdx_append, zipIdx_cons, flatMap_append, flatMap_cons, before, hlength, Nat.zero_add,
    flatMap_congr fun x hx => h x (Nat.ne_of_gt (le_snd_of_mem_zipIdx hx))]

/-- Deleting increasing places, the last one first, deletes what stood there and nothing else. -/
lemma foldr_eraseIdx (hps : ps.Pairwise (· < ·)) (hin : ∀ q ∈ ps, q < l.length) :
    ps.foldr (fun i l => l.eraseIdx i) l = l.zipIdx.flatMap fun x => if x.2 ∈ ps then [] else [x.1] := by
  induction ps with
  | nil => exact (flatMap_zipIdx_kept fun _ _ => rfl).symm
  | cons p ps ih =>
    obtain ⟨hlt, hps⟩ := pairwise_cons.1 hps
    obtain ⟨hp, hin⟩ := forall_mem_cons.1 hin
    -- The first goes last, and what stood before it has not moved.
    rw [foldr_cons, ih hps hin, flatMap_zipIdx_at hp hlt fun _ _ => rfl,
      flatMap_zipIdx_at hp hlt fun x hx => by simp [hx], if_neg fun hmem => Nat.lt_irrefl p (hlt p hmem),
      if_pos (.head _), eraseIdx_append_of_length_le (length_take_le ..),
      length_take_of_le (Nat.le_of_lt hp), Nat.sub_self]
    rfl

/-- Items take the place of one, and only one does where others go. -/
lemma foldr_eraseIdx_put (hps : (p :: ps).Pairwise (· < ·)) (hin : ∀ q ∈ p :: ps, q < l.length) {new}
    (hone : ps = [] ∨ new.length = 1) : ps.foldr (fun i l => l.eraseIdx i) (l.take p ++ new ++ l.drop (p + 1)) =
      l.zipIdx.flatMap fun x => if x.2 = p then new else if x.2 ∈ ps then [] else [x.1] := by
  obtain ⟨hlt, hps⟩ := pairwise_cons.1 hps
  obtain ⟨hp, hin⟩ := forall_mem_cons.1 hin
  rw [flatMap_zipIdx_at hp hlt fun x hx => if_neg hx, if_pos rfl, append_assoc]
  rcases hone with rfl | hone
  · rw [flatMap_zipIdx_kept fun x _ => if_neg not_mem_nil]
    rfl
  · obtain ⟨item, rfl⟩ := length_eq_one_iff.1 hone
    rw [singleton_append, ← set_eq_take_cons_drop item hp,
      foldr_eraseIdx hps (by simpa using hin), flatMap_zipIdx_at (by simpa using hp) hlt fun _ _ => rfl,
      if_neg fun hmem => Nat.lt_irrefl p (hlt p hmem)]
    simp [take_set_of_le, drop_set_of_lt]

end

variable {b : Buffer}

/-- **Writing through the view touches only what it shows.** -/
theorem setSlice_rewrites (hsorted : b.view.places.Pairwise (· < ·)) (hvalid : ∀ p ∈ b.view.places, p < b.items.length)
    {first last : Nat} (hfirst : first < last) (hlast : last ≤ b.view.places.length) (new : List Item) :
    b.setSlice first last new = if last = first + 1 ∨ new.length = 1 then
      .ok { b with items := b.items.zipIdx.flatMap fun x => if x.2 = b.view.places[first] then new
        else if x.2 ∈ (b.view.places.take last).drop (first + 1) then [] else [x.1] }
      else .error (.refused .tooHard) := by
  have hrange := range_nat b.view.places first last
  have hsub := ((b.view.places.take last).drop_sublist first).trans (take_sublist ..)
  rw [drop_eq_getElem_cons (by simp; omega), getElem_take] at hrange hsub
  have hin := fun q hq => hvalid q (hsub.subset hq)
  have hone : (b.view.places.take last).drop (first + 1) = [] ↔ last = first + 1 := by
    rw [drop_eq_nil_iff, length_take]
    omega
  simp only [setSlice_eq hrange hin, hone]
  split
  · next h => rw [foldr_eraseIdx_put (hsorted.sublist hsub) hin (h.imp_left hone.2)]
  · rfl

def markBetween : Buffer where
  items := ["f", "acutecomb", "i"].map fun g => { glyph := some g }
  view := .chosen [0, 2]

/-- A ligature takes the place of two letters, and the mark between them stays. -/
theorem setSlice_rewrites_markBetween : markBetween.setSlice 0 2 [{ glyph := some "f_i" }] =
    .ok { markBetween with items := ["f_i", "acutecomb"].map fun g => { glyph := some g } } :=
  (setSlice_rewrites (b := markBetween) (by decide) (by decide) (by decide) (by decide) _).trans rfl

end GlyphRules.Shaping.Buffer
