import Mathlib.Data.List.Nodup
import GlyphRules.Proofs.Step
import GlyphRules.Text.Basic

/-! Lists of texts.

What a list says when each text is listed once, or when the texts are sorted: sorting forgets the order of a
list and nothing else (`sort_eq_iff`). -/
namespace GlyphRules.Text

lemma mem_distinct [BEq α] [LawfulBEq α] {l} {a : α} : a ∈ distinct l ↔ a ∈ l := by
  have from_ seen :
      a ∈ l.foldl (fun seen a => if seen.contains a then seen else seen ++ [a]) seen ↔ a ∈ seen ∨ a ∈ l := by
    induction l generalizing seen with
    | nil => simp
    | cons x l ih => rw [List.foldl_cons, ih, mem_ifNew, List.mem_cons, or_assoc]
  rw [distinct, from_, or_iff_right List.not_mem_nil]

lemma nodup_distinct [BEq α] [LawfulBEq α] (l : List α) : (distinct l).Nodup := by
  refine List.foldlRecOn _ _ List.nodup_nil fun seen hseen a _ => ?_
  split
  · exact hseen
  · next hnew =>
    rw [← List.concat_eq_append]
    exact hseen.concat (by simpa using hnew)

lemma nodup_sort_distinct (l) : (sort (distinct l)).Nodup :=
  (List.mergeSort_perm _ _).nodup_iff.2 (nodup_distinct l)

lemma mem_sort_distinct : a ∈ sort (distinct l) ↔ a ∈ l :=
  (List.mergeSort_perm _ _).mem_iff.trans mem_distinct

lemma sort_perm (l) : (sort l).Perm l := List.mergeSort_perm l le

lemma le_iff : le a b = true ↔ a ≤ b := by
  rw [le, Bool.not_eq_true', decide_eq_false_iff_not]
  exact String.not_lt

lemma sort_eq_iff : sort l = sort l' ↔ l.Perm l' := by
  have sorted l : (sort l).Pairwise fun a b => le a b = true := by
    refine List.pairwise_mergeSort (fun a b c hab hbc => ?_) (fun a b => ?_) l
    · exact le_iff.2 (String.le_trans (le_iff.1 hab) (le_iff.1 hbc))
    · rw [Bool.or_eq_true, le_iff, le_iff]
      exact String.le_total a b
  constructor
  · intro h
    exact (sort_perm l).symm.trans (h ▸ sort_perm l')
  · intro h
    refine List.Perm.eq_of_pairwise (fun a b _ _ hab hba => String.le_antisymm (le_iff.1 hab) (le_iff.1 hba))
      (sorted l) (sorted l') ?_
    exact (sort_perm l).trans (h.trans (sort_perm l').symm)

end GlyphRules.Text
