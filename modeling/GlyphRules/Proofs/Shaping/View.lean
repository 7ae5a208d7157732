import GlyphRules.Proofs.Step
import GlyphRules.Shaping.Apply

/-! What a rule sees of the buffer.

A view that has just been computed shows places of the buffer, each once and in
order (`visible_sublist`). With no flags and nothing masked it shows all of them
(`visible_clear`), and then a range of the view is a range of the items. -/
namespace GlyphRules.Shaping

open List

open Step (ok_bind bind_eq_ok)

variable {α : Type} {test : Item → Except Fault Bool} {k n : Nat} {v : View}

variable {b : Buffer} {ps : List Nat}

/-! ### Places and ranges -/

lemma View.length_places (v : View) : v.places.length = v.size := by
  cases v <;> simp [View.places, View.size]

lemma itemAt_eq_ok {a : α} : itemAt l (n : Int) = .ok a ↔ l[n]? = some a := by
  unfold itemAt placeIn?
  by_cases h : n < l.length
  all_goals simp [h]

lemma clampEnd_nat (length n : Nat) : clampEnd length (n : Int) = Nat.min n length := by
  have : ¬(n : Int) < 0 := by omega
  simp [clampEnd, this]

lemma range_nat (l : List α) (i j : Nat) : range l (i : Int) (j : Int) = (l.take j).drop i := by
  rw [range, clampEnd_nat, clampEnd_nat]
  apply ext_getElem?
  grind

lemma replaceRange_nat (l new : List α) {i j} (hij : i ≤ j) (hj : j ≤ l.length) :
    replaceRange l (i : Int) (j : Int) new = l.take i ++ new ++ l.drop j := by
  rw [replaceRange, clampEnd_nat, clampEnd_nat]
  have hi : Nat.min i l.length = i := Nat.min_eq_left (by omega)
  have hj : Nat.max i (Nat.min j l.length) = j := by
    rw [show Nat.min j l.length = j from Nat.min_eq_left hj]
    exact Nat.max_eq_right hij
  simp only [hi, hj]

/-- Deleting a row of places from its end is cutting it out. -/
lemma foldr_eraseIdx_range' (l : List α) (h : n + k ≤ l.length) :
    (List.range' n k).foldr (fun p l => l.eraseIdx p) l = l.take n ++ l.drop (n + k) := by
  induction k generalizing l with
  | zero => simp
  | succ k ih =>
    rw [List.range'_1_concat, foldr_append, foldr_cons, foldr_nil, ih _ (by rw [length_eraseIdx]; split <;> omega),
      eraseIdx_eq_take_drop_succ, take_append_of_le_length (by simp; omega), take_take, drop_append]
    simp
    omega

/-! ### Computing the view -/

/-- An outcome that is no index error, and whose result has a property. -/
def Safe (P : α → Prop) : Except Fault α → Prop
  | .ok a => P a
  | .error f => f ≠ .outOfRange

lemma Safe.bind {P : α → Prop} {Q : β → Prop} {x : Except Fault α} {f} (h : Safe P x) (hf : ∀ a, P a → Safe Q (f a)) :
    Safe Q (x >>= f) := by
  cases x with
  | error e => exact h
  | ok a => exact hf a h

lemma Safe.imp {P Q : α → Prop} {x} (h : Safe P x) (hpq : ∀ a, P a → Q a) : Safe Q x := by
  cases x with
  | error e => exact h
  | ok a => exact hpq a h

namespace Buffer

section
variable (htest : ∀ i, Safe (fun _ => True) (test i))
include htest

lemma passing_safe (h : ∀ p ∈ ps, p < b.items.length) : Safe (·.Sublist ps) (b.passing test ps) := by
  induction ps with
  | nil => exact .slnil
  | cons p ps ih =>
    obtain ⟨hp, hps⟩ := forall_mem_cons.1 h
    rw [passing, itemAt_eq_ok.2 (getElem?_eq_getElem hp), ok_bind]
    refine (htest _).bind fun passes _ => ?_
    cases passes with
    | false => exact (ih hps).imp fun _ h => h.cons p
    | true => exact (ih hps).bind fun _ h => h.cons_cons p

lemma keep_safe (hv : v.places.Sublist (List.range b.items.length)) :
    Safe (·.places.Sublist (List.range b.items.length)) (b.keep test v) :=
  (passing_safe htest fun _ hp => mem_range.1 (hv.subset hp)).bind fun _ h => h.trans hv

lemma narrow_safe (mask) (hv : v.places.Sublist (List.range b.items.length)) :
    Safe (·.places.Sublist (List.range b.items.length)) (b.narrow mask test v) := by
  have flags : Safe (fun _ => True) (b.flags.test mask) := by
    cases b.flags <;> simp [Flags.test, Safe]
  refine flags.bind fun set _ => ?_
  cases set with
  | false => exact hv
  | true => exact keep_safe htest hv

end

/-- A view shows places of the buffer, each once and in order, and can be computed without index errors. -/
lemma visible_safe (b : Buffer) : Safe (·.places.Sublist (List.range b.items.length)) b.visible := by
  have category (i : Item) : Safe (fun _ => True) i.category := by
    cases hc : i.category? <;> simp [Item.category, hc, Safe]
  have isNot (c) (i) : Safe (fun _ => True) (isNot c i) := (category i).bind fun _ _ => trivial
  have passes (m) (i) : Safe (fun _ => True) (passes m i) := by
    refine (category i).bind fun c _ => ?_
    split
    · trivial
    · cases m <;> simp [inSet, Safe]
  refine (narrow_safe (isNot _) _ (Sublist.refl _)).bind fun _ hv => ?_
  refine (narrow_safe (isNot _) _ hv).bind fun _ hv => ?_
  refine (narrow_safe (isNot _) _ hv).bind fun _ hv => ?_
  refine (narrow_safe (passes _) _ hv).bind fun _ hv => ?_
  refine (narrow_safe (passes _) _ hv).bind fun _ hv => ?_
  split
  · exact hv
  · exact hv
  · refine keep_safe (fun i => ?_) hv
    trivial

lemma visible_sublist (h : b.visible = .ok v) : v.places.Sublist (List.range b.items.length) := by
  have safe := visible_safe b
  rw [h] at safe
  exact safe

/-- No item is passed over for the feature in force. -/
def Clear (b : Buffer) : Prop :=
  ∀ f, b.feature = some f → f ≠ "" → ∀ i ∈ b.items, i.isMasked f = false

lemma passing_all (h : ∀ p ∈ ps, ∃ i, b.items[p]? = some i ∧ test i = .ok true) : b.passing test ps = .ok ps := by
  induction ps with
  | nil => rfl
  | cons p ps ih =>
    obtain ⟨i, hi, ht⟩ := h p (.head _)
    rw [passing, itemAt_eq_ok.2 hi]
    simp only [ok_bind, ht, ih fun q hq => h q (.tail _ hq)]
    rfl

/-- With no flags and nothing masked, every place can be seen. -/
lemma visible_clear (hf : b.flags = .bits 0) (h : b.Clear) :
    ∃ v, b.visible = .ok v ∧ v.places = List.range b.items.length := by
  have narrow (mask) (test) (v) : b.narrow mask test v = .ok v := by
    simp [narrow, hf, Flags.test, Flags.landBits, pure, Except.pure]
  simp only [visible, narrow]
  split
  · exact ⟨_, rfl, rfl⟩
  · exact ⟨_, rfl, rfl⟩
  · next f hne hfeature =>
    have all : b.passing (fun i => pure !i.isMasked f) (List.range b.items.length) =
        .ok (List.range b.items.length) := by
      refine passing_all fun p hp => ?_
      have hp : p < b.items.length := mem_range.1 hp
      refine ⟨b.items[p], getElem?_eq_getElem hp, ?_⟩
      rw [h f hfeature hne _ (getElem_mem hp)]
      rfl
    refine ⟨.chosen (List.range b.items.length), ?_, rfl⟩
    show (do return View.chosen (← b.passing _ (List.range b.items.length))) = _
    rw [all]
    rfl

/-! ### Writing -/

/-- One place takes any number of items, several take one and the places behind the first are deleted. -/
lemma setSlice_eq (hrange : range b.view.places first last = p :: ps) (hin : ∀ q ∈ p :: ps, q < b.items.length) (new) :
    b.setSlice first last new = if ps = [] ∨ new.length = 1 then
      .ok { b with items := ps.foldr (fun i l => l.eraseIdx i) (b.items.take p ++ new ++ b.items.drop (p + 1)) }
      else .error (.refused .tooHard) := by
  have hp := hin p (.head _)
  unfold setSlice
  rw [hrange]
  cases ps with
  | nil =>
    rw [if_pos (.inl rfl), foldr_nil, ← replaceRange_nat b.items new (Nat.le_succ p) hp]
    rfl
  | cons q qs =>
    match new with
    | [] => rfl
    | [item] =>
      simp only [all_eq_true, decide_eq_true_eq]
      rw [if_pos hin, foldl_reverse, set_eq_take_append_cons_drop, if_pos hp, append_assoc]
      rfl
    | _ :: _ :: _ => simp

/-! ### A view of everything -/

/-- Every item can be seen. -/
def Whole (b : Buffer) : Prop := b.view.places = List.range b.items.length

abbrev Shows (b : Buffer) : List Nat → List Item → Prop := Forall₂ fun p i => b.items[p]? = some i

lemma Shows.filterMap (h : b.Shows ps xs) : ps.filterMap (fun p => b.items[p]?) = xs := by
  induction h with
  | nil => rfl
  | cons hp _ ih => rw [filterMap_cons, hp, ih]

lemma Shows.mapM (h : b.Shows ps xs) : ps.mapM (fun (p : Nat) => itemAt b.items p) = .ok xs := by
  induction h with
  | nil => rfl
  | cons hp _ ih =>
    rw [mapM_cons, itemAt_eq_ok.2 hp, ih]
    rfl

/-- A range of the view shows a range of what the view shows. -/
lemma Shows.slice (h : b.Shows b.view.places xs) (i j : Nat) :
    b.slice i j = .ok ((xs.take j).drop i) := by
  have shows : b.Shows ((b.view.places.take j).drop i) ((xs.take j).drop i) :=
    forall₂_drop _ (forall₂_take _ h)
  unfold Buffer.slice
  cases hv : b.view with
  | whole n =>
    rw [hv] at shows
    show Except.ok ((range (List.range n) i j).filterMap fun p => b.items[p]?) = _
    rw [range_nat]
    exact congrArg _ shows.filterMap
  | chosen l =>
    rw [hv] at shows
    show (range l i j).mapM (fun (p : Nat) => itemAt b.items p) = _
    rw [range_nat]
    exact shows.mapM

section Whole
variable (h : b.Whole)
include h

lemma Whole.shows : b.Shows b.view.places b.items := by
  rw [h]
  refine forall₂_iff_get.2 ⟨by simp, fun k hk hk' => ?_⟩
  simp at hk ⊢

lemma Whole.size_eq : b.view.size = b.items.length := by
  rw [← View.length_places, h, length_range]

lemma Whole.indexOf (hn : n < b.items.length) : b.indexOf n = .ok n := by
  rw [Buffer.indexOf, h]
  exact itemAt_eq_ok.2 (getElem?_range hn)

lemma Whole.get (hi : b.items[n]? = some i) : b.get n = .ok i := by
  have hn : n < b.items.length := (List.getElem?_eq_some_iff.1 hi).1
  have hp : itemAt b.view.places n = .ok n := h.indexOf hn
  rw [Buffer.get, hp]
  exact itemAt_eq_ok.2 hi

lemma Whole.setSlice (hk : 0 < k) (hn : n + k ≤ b.items.length) (hnew : k = 1 ∨ new.length = 1) :
    b.setSlice n (n + k : Nat) new = .ok { b with items := b.items.take n ++ new ++ b.items.drop (n + k) } := by
  obtain ⟨k, rfl⟩ := Nat.exists_eq_add_one.2 hk
  have places : range b.view.places n (n + (k + 1) : Nat) = n :: List.range' (n + 1) k := by
    rw [h, range_nat, ← List.range'_succ]
    apply ext_getElem?
    grind
  have inside : ∀ p ∈ n :: List.range' (n + 1) k, p < b.items.length := by
    intro p hp
    rw [← List.range'_succ, mem_range'_1] at hp
    omega
  have hnew : List.range' (n + 1) k = [] ∨ new.length = 1 := hnew.imp (by simp) id
  rw [setSlice_eq places inside, if_pos hnew]
  obtain hk | hnew := hnew
  · simp_all
  · have hlength : (b.items.take n ++ new).length = n + 1 := by simp; omega
    rw [foldr_eraseIdx_range' _ (by simp; omega), take_left' hlength, ← drop_drop, drop_left' hlength, drop_drop,
      Nat.add_assoc, Nat.add_comm 1]

end Whole
end Buffer
end GlyphRules.Shaping
