import GlyphRules.Proofs.Dict
import GlyphRules.Proofs.Text
import GlyphRules.Layout.Rules

/-! Classes of glyphs, and the pairs that are kerned by them.

A class definition lists glyphs under numbers; the other glyphs of a font are in class zero. Turning a definition round
gives the glyphs of each class (`mem_slotOf`). So a pair of glyphs has the values that its classes have in the table,
from one rule, or from none (`classPairs_values`). -/
namespace GlyphRules.Layout

open List Dict

variable {s : Setting} {m first second : ClassMap} {all coverage : List String} {k : Nat} {g h : String}

/-! ### Classes turned round -/

lemma find?_invertClasses :
    ((invertClasses all m).find? (·.1 == k)).isSome = true ↔ k = 0 ∨ ∃ g, last? m g = some k := by
  simp only [← mem_merge_nil]
  by_cases hk : k = 0
  · simp [invertClasses, hk]
  · simp [invertClasses, Text.mem_distinct, hk, Ne.symm hk]

lemma slotOf_of_none (h : classes.find? (·.1 == k) = none) :
    slotOf classes k = [] := by
  simp [slotOf, h]

lemma slotOf_of_some {c}
    (h : classes.find? (·.1 == k) = some c) : slotOf classes k = c.2.glyphs := by
  simp [slotOf, h]

lemma mem_slotOf : g ∈ slotOf (invertClasses all m) k ↔
    if k = 0 then last? m g = none ∧ g ∈ all else last? m g = some k := by
  split
  · next hk =>
    subst hk
    simp [slotOf, invertClasses, Text.mem_sort_distinct, has_eq_isSome, get?_merge_nil, and_comm]
  · next hk =>
    cases hfound : (invertClasses all m).find? (·.1 == k) with
    | none =>
      have hnone := (not_congr (@find?_invertClasses m all k)).1 (by simp [hfound])
      simp [slotOf_of_none hfound, not_exists.1 (not_or.1 hnone).2 g]
    | some c =>
      obtain ⟨n, c⟩ := c
      obtain rfl : n = k := by simpa using List.find?_some hfound
      have hmem := List.mem_of_find?_eq_some hfound
      simp only [invertClasses, mem_cons, Prod.mk.injEq, hk, false_and, false_or, mem_map] at hmem
      obtain ⟨k, -, rfl, rfl⟩ := hmem
      simp [slotOf_of_some hfound, mem_merge_nil]

/-- The class of a glyph: zero if it is not listed. -/
def classOf (m : ClassMap) (g : String) : Nat := (last? m g).getD 0

lemma mem_slotOf_iff (hm : ∀ x ∈ m, x.2 ≠ 0) (hg : g ∈ all) :
    g ∈ slotOf (invertClasses all m) k ↔ classOf m g = k := by
  rw [mem_slotOf, classOf]
  cases hlast : last? m g with
  | none => grind
  | some n =>
    have hn : n ≠ 0 := hm _ (mem_of_last? hlast)
    grind

/-! ### Pairs -/

/-- The values that a rule gives a pair of glyphs. -/
def pairValues? (g h : String) (r : Rule) : Option (List (Option ValueRecord)) :=
  match r.body with
  | .positioning { glyphs := [a, b], values, before := [], after := [], .. } => if g ∈ a ∧ h ∈ b then some values else none
  | _ => none

/-- Where a list is read by positions, and only one of them gives anything, that is all there is. -/
lemma flatMap_zipIdx_of_only {α β : Type} {l : List α} {f : α × Nat → List β} {n c}
    (honly : ∀ x, x.2 ≠ n + c → f x = []) :
    (l.zipIdx n).flatMap f = (l[c]?).elim [] fun a => f (a, n + c) := by
  induction l generalizing n c with
  | nil => rfl
  | cons a l ih =>
    rw [zipIdx_cons, flatMap_cons]
    cases c with
    | zero =>
      have hrest : (l.zipIdx (n + 1)).flatMap f = [] :=
        flatMap_eq_nil_iff.2 fun x hx => honly x (by have := (mem_zipIdx hx).1; omega)
      rw [hrest, append_nil]
      rfl
    | succ c =>
      rw [honly (a, n) (by simp), ih (c := c) fun x hx => honly x (by omega), Nat.add_right_comm]
      rfl

/-- The values of a record, with the parts that are zero absent: nothing, if no part is left. -/
def settledPair? (x : ValueRecord × ValueRecord) : Option (List (Option ValueRecord)) :=
  if x.1.settled.isSet || x.2.settled.isSet then some [some x.1.settled, some x.2.settled] else none

variable {flags : Int} {number count : Nat} {markToMark : Bool} {rows : List (List (ValueRecord × ValueRecord))}

lemma pairValues?_classPairs :
    ∃ rules, (subtableRules s markToMark flags number (.classPairs coverage first second rows)).run count =
        .ok (rules, count) ∧
      ∀ g h, rules.filterMap (pairValues? g h) = rows.zipIdx.flatMap fun row => row.1.zipIdx.flatMap fun cell =>
        if (g ∈ slotOf (invertClasses s.tables.glyphs first) row.2 ∧ g ∈ coverage) ∧
            h ∈ slotOf (invertClasses s.tables.glyphs second) cell.2 then (settledPair? cell.1).toList else [] := by
  refine ⟨_, rfl, fun g h => ?_⟩
  rw [filterMap_flatMap]
  congr 1
  funext ⟨row, i⟩
  dsimp only
  split
  · next hnone => simp [slotOf_of_none hnone]
  · next n c hc =>
    rw [filterMap_filterMap, filterMap_eq_flatMap_toList, slotOf_of_some hc]
    congr 1
    funext ⟨cell, j⟩
    cases hd : (invertClasses s.tables.glyphs second).find? (·.1 == j) with
    | none => simp [slotOf_of_none hd]
    | some d =>
      rw [slotOf_of_some hd]
      by_cases hset : cell.1.settled.isSet || cell.2.settled.isSet
      · by_cases hpair : (g ∈ c.glyphs ∧ g ∈ coverage) ∧ h ∈ d.2.glyphs <;>
          simp [hset, hpair, settledPair?, pairValues?, subtableRules.positioning, Text.mem_sort_distinct]
      · simp [hset, settledPair?]

/-- **A pair has the values of its classes, from one rule, or from none.** -/
theorem classPairs_values (hfirst : ∀ x ∈ first, x.2 ≠ 0) (hsecond : ∀ x ∈ second, x.2 ≠ 0)
    (hfont : coverage ⊆ s.tables.glyphs) :
    ∃ rules, (subtableRules s markToMark flags number (.classPairs coverage first second rows)).run count =
        .ok (rules, count) ∧
      ∀ g h, (g ∉ coverage → rules.filterMap (pairValues? g h) = []) ∧
        (g ∈ coverage → h ∈ s.tables.glyphs → rules.filterMap (pairValues? g h) =
          (((rows[classOf first g]?).bind (·[classOf second h]?)).bind settledPair?).toList) := by
  obtain ⟨rules, hrun, hvalues⟩ := @pairValues?_classPairs s first second coverage flags number count markToMark rows
  refine ⟨rules, hrun, fun g h => ⟨fun hg => ?_, fun hg hh => ?_⟩⟩
  · simp [hvalues, hg]
  · simp only [hvalues, mem_slotOf_iff hfirst (hfont hg), mem_slotOf_iff hsecond hh, hg]
    rw [flatMap_zipIdx_of_only (c := classOf first g) fun row hrow =>
      flatMap_eq_nil_iff.2 fun cell _ => if_neg (by omega)]
    cases rows[classOf first g]? with
    | none => rfl
    | some row =>
      rw [Option.elim_some, Option.bind_some,
        flatMap_zipIdx_of_only (c := classOf second h) fun cell hcell => if_neg (by omega)]
      cases row[classOf second h]? <;> simp

/-- `b` is in class zero; `a` is in class one, and `d` in class two where it stands second. -/
theorem classPairs_values_sample : ∃ rules : List Rule,
    rules.filterMap (pairValues? "a" "d") = [[some { xAdvance := some (.int 5) }, some {}]] ∧
      rules.filterMap (pairValues? "b" "a") = [] ∧ rules.filterMap (pairValues? "d" "a") = [] := by
  obtain ⟨rules, -, hvalues⟩ := @classPairs_values
    { kind := .positioning, tables := { glyphs := ["a", "b", "d"] }, names := none, first := 0, count := 1 }
    [("a", 1)] [("a", 1), ("d", 2)] ["a", "b"] 0 0 0 false
    [[({}, {})], [({}, {}), ({}, {}), ({ xAdvance := some (.int 5) }, { yAdvance := some (.int 0) })]]
    (by decide) (by decide) (by decide)
  exact ⟨rules, (hvalues "a" "d").2 (by decide) (by decide), (hvalues "b" "a").2 (by decide) (by decide),
    (hvalues "d" "a").1 (by decide)⟩

end GlyphRules.Layout
