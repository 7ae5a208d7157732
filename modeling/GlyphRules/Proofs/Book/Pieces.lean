import Mathlib.Data.List.Induction
import Mathlib.Data.List.Perm.Subperm
import GlyphRules.Book.Partition

/-! Items grouped by value.

`pieces` lists the items of each value, the values in the order of their first items.
`groupBy` finds the pieces in one pass over the items (`groupBy_pieces`). -/
namespace GlyphRules

open List

/-- A list may be taken apart by its first item and what a test leaves of the others. -/
lemma filter_induction {α : Type} {P : List α → Prop} (nil : P []) (cons : ∀ a l, (∀ p, P (l.filter p)) → P (a :: l))
    (l) : P l := by
  induction hn : l.length using Nat.strongRecOn generalizing l with
  | _ n ih =>
    cases l with
    | nil => exact nil
    | cons a l => exact cons a l fun p => ih _ (hn ▸ Nat.lt_succ_of_le (length_filter_le p l)) _ rfl

lemma nodup_eraseDups {α : Type} [BEq α] [LawfulBEq α] (l : List α) : l.eraseDups.Nodup := by
  induction l using filter_induction with
  | nil => exact nodup_nil
  | cons a l ih =>
    rw [eraseDups_cons, nodup_cons]
    exact ⟨by simp, ih _⟩

lemma two_le_length {α : Type} {l : List α} {a a'} (hne : a ≠ a') (ha : a ∈ l) (ha' : a' ∈ l) : 2 ≤ l.length := by
  have hnodup : [a, a'].Nodup := by simpa using hne
  have hsubset : [a, a'] ⊆ l := by simp [ha, ha']
  exact (subperm_of_subset hnodup hsubset).length_le

section Pieces
variable {α β : Type} [BEq β] [LawfulBEq β] {items piece g : List α} {value : α → β}

/-- The items of each value, the values in the order of their first items. -/
def pieces (value : α → β) (items : List α) : List (List α) :=
  (items.map value).eraseDups.map fun v => items.filter (value · == v)

omit [LawfulBEq β] in
lemma groupBy_concat (items : List (α × β)) (a : α) (k : β) : groupBy (items ++ [(a, k)]) =
    if (groupBy items).any (·.1 == k) then
      (groupBy items).map fun (k', as) => if k' == k then (k', as ++ [a]) else (k', as)
    else groupBy items ++ [(k, [a])] := by
  unfold groupBy
  rw [foldl_append]
  rfl

omit [LawfulBEq β] in
lemma mem_groupBy {items : List (α × β)} {a : α} : (∃ g ∈ groupBy items, a ∈ g.2) ↔ ∃ k, (a, k) ∈ items := by
  induction items using List.reverseRecOn with
  | nil => simp [groupBy]
  | append_singleton items x ih =>
    obtain ⟨x, k⟩ := x
    have step : (∃ g ∈ groupBy (items ++ [(x, k)]), a ∈ g.2) ↔ (∃ g ∈ groupBy items, a ∈ g.2) ∨ a = x := by
      rw [groupBy_concat]
      split
      · next hknown =>
        obtain ⟨g₀, hg₀, hk₀⟩ := any_eq_true.1 hknown
        constructor
        · rintro ⟨g, hg, ha⟩
          obtain ⟨⟨k', as⟩, hg', rfl⟩ := mem_map.1 hg
          dsimp only at ha
          split at ha
          · exact (mem_append.1 ha).imp (fun h => ⟨_, hg', h⟩) mem_singleton.1
          · exact .inl ⟨_, hg', ha⟩
        · rintro (⟨g, hg, ha⟩ | rfl)
          · refine ⟨_, mem_map_of_mem hg, ?_⟩
            dsimp only
            split
            · exact mem_append_left _ ha
            · exact ha
          · exact ⟨_, mem_map_of_mem hg₀, by simp [hk₀]⟩
      · simp [or_and_right, exists_or]
    rw [step, ih]
    simp [exists_or]

lemma groupBy_eq (value : α → β) (items : List α) : groupBy (items.map fun a => (a, value a)) =
    (items.map value).eraseDups.map fun v => (v, items.filter (value · == v)) := by
  induction items using List.reverseRecOn with
  | nil => rfl
  | append_singleton items a ih =>
    rw [map_append, map_singleton, groupBy_concat, ih, map_append, map_singleton, eraseDups_append]
    have known : ((items.map value).eraseDups.map fun v => (v, items.filter (value · == v))).any
        (·.1 == value a) = decide (value a ∈ items.map value) := by
      rw [any_map, Bool.eq_iff_iff, any_eq_true, decide_eq_true_iff]
      constructor
      · rintro ⟨v, hv, h⟩
        exact eq_of_beq h ▸ mem_eraseDups.1 hv
      · intro h
        exact ⟨_, mem_eraseDups.2 h, beq_self_eq_true _⟩
    have grown v : (items ++ [a]).filter (value · == v) =
        if v == value a then items.filter (value · == v) ++ [a] else items.filter (value · == v) := by
      rw [filter_append, filter_cons, BEq.comm]
      split
      · rfl
      · exact append_nil _
    by_cases h : value a ∈ items.map value
    · have gone : [value a].removeAll (items.map value) = [] := by
        simpa [List.removeAll] using h
      rw [if_pos (by simpa using h), gone, eraseDups_nil, append_nil, map_map]
      refine map_congr_left fun v _ => ?_
      simp only [Function.comp, grown]
      split <;> rfl
    · have left : [value a].removeAll (items.map value) = [value a] := by
        simpa [List.removeAll] using h
      rw [if_neg (by simpa using h), left, map_append]
      congr 1
      · refine map_congr_left fun v hv => ?_
        have : ¬(v == value a) = true := fun he => h (eq_of_beq he ▸ mem_eraseDups.1 hv)
        rw [grown, if_neg this]
      · have none_yet : items.filter (value · == value a) = [] := by
          rw [filter_eq_nil_iff]
          intro x hx he
          exact h (mem_map.2 ⟨x, hx, eq_of_beq he⟩)
        simp [none_yet, eraseDups_cons]

lemma groupBy_pieces (value : α → β) (items) :
    (groupBy (items.map fun a => (a, value a))).map (·.2) = pieces value items := by
  rw [groupBy_eq, map_map]
  rfl

/-- The first piece has the first item; the other pieces are those of the items with other values. -/
lemma pieces_cons (value : α → β) (a) (items) : pieces value (a :: items) =
    (a :: items.filter (value · == value a)) :: pieces value (items.filter (value · != value a)) := by
  unfold pieces
  have others : (items.map value).filter (fun v => !v == value a) = (items.filter (value · != value a)).map value := by
    rw [filter_map]
    rfl
  rw [map_cons, eraseDups_cons, others, map_cons]
  congr 1
  · simp
  · refine map_congr_left fun v hv => ?_
    obtain ⟨x, hx, rfl⟩ := mem_map.1 (mem_eraseDups.1 hv)
    have hne : value x ≠ value a := by simpa using (mem_filter.1 hx).2
    rw [filter_cons, if_neg (by simpa using hne.symm), filter_filter]
    refine filter_congr fun y _ => ?_
    by_cases hy : value y = value x
    · simp [hy, hne]
    · simp [hy]

lemma pieces_of_eq (hne : items ≠ [])
    (h : ∀ a ∈ items, ∀ b ∈ items, value a = value b) : pieces value items = [items] := by
  obtain ⟨a, rest, rfl⟩ := exists_cons_of_ne_nil hne
  have same (b) hb : value b = value a :=
    h b (.tail _ hb) a (.head _)
  have all : rest.filter (value · == value a) = rest := filter_eq_self.2 fun b hb => by simp [same b hb]
  have nothing : rest.filter (value · != value a) = [] :=
    filter_eq_nil_iff.2 fun b hb => by simp [same b hb]
  rw [pieces_cons, all, nothing]
  rfl

omit [LawfulBEq β] in
lemma pieces_map {γ : Type} (value : γ → β) (f : α → γ) (items : List α) :
    pieces value (items.map f) = (pieces (value ∘ f) items).map (·.map f) := by
  unfold pieces
  rw [map_map, map_map]
  refine map_congr_left fun v _ => ?_
  exact filter_map

/-- Writing values in another way does not change the pieces. -/
lemma pieces_comp [BEq γ] [LawfulBEq γ] {g : β → γ} (hg : ∀ {v v'}, g v = g v' → v = v')
    (value) (items : List α) : pieces (g ∘ value) items = pieces value items := by
  induction items using filter_induction with
  | nil => rfl
  | cons a items ih =>
    have same x : ((g ∘ value) x == (g ∘ value) a) = (value x == value a) := by
      rw [Bool.eq_iff_iff, beq_iff_eq, beq_iff_eq]
      exact ⟨hg, congrArg g⟩
    rw [pieces_cons, pieces_cons]
    simp only [bne, same]
    exact congrArg _ (ih _)

lemma perm_pieces (value : α → β) (items) : (pieces value items).flatten.Perm items := by
  induction items using filter_induction with
  | nil => exact Perm.nil
  | cons a items ih =>
    rw [pieces_cons]
    exact (((ih _).append_left _).trans (filter_append_perm _ items)).cons a

lemma head?_pieces (h : (pieces value items).head? = some g) : g.Sublist items ∧ g.head? = items.head? := by
  cases items with
  | nil => cases h
  | cons a items =>
    rw [pieces_cons] at h
    cases h
    exact ⟨filter_sublist.cons_cons a, rfl⟩

lemma mem_piece (h : piece ∈ pieces value items) :
    piece ≠ [] ∧ ∀ a ∈ piece, a ∈ items ∧ ∀ b ∈ piece, value a = value b := by
  obtain ⟨v, hv, rfl⟩ := mem_map.1 h
  constructor
  · obtain ⟨a, ha, rfl⟩ := mem_map.1 (mem_eraseDups.1 hv)
    exact ne_nil_of_mem (mem_filter.2 ⟨ha, beq_self_eq_true _⟩)
  · intro a ha
    obtain ⟨ha, hva⟩ := mem_filter.1 ha
    refine ⟨ha, fun b hb => ?_⟩
    rw [eq_of_beq hva, eq_of_beq (mem_filter.1 hb).2]

lemma exists_piece (value : α → β) {a} (h : a ∈ items) : ∃ piece ∈ pieces value items, a ∈ piece :=
  ⟨_, mem_map.2 ⟨value a, mem_eraseDups.2 (mem_map_of_mem h), rfl⟩, mem_filter.2 ⟨h, beq_self_eq_true _⟩⟩

lemma two_le_length_pieces (ha : a ∈ items) (hb : b ∈ items)
    (hne : value a ≠ value b) : 2 ≤ (pieces value items).length := by
  obtain ⟨p, hp, hmem⟩ := exists_piece value ha
  obtain ⟨p', hp', hmem'⟩ := exists_piece value hb
  refine two_le_length ?_ hp hp'
  rintro rfl
  exact hne (((mem_piece hp).2 a hmem).2 b hmem')

end Pieces

end GlyphRules
