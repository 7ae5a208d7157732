import Mathlib.Data.List.Nodup
import GlyphRules.Dict

/-! Ordered dictionaries.

What is found under a key after a value was set, changed or merged in; and where the keys
of a dictionary with distinct keys go. -/
namespace GlyphRules.Dict

open List

variable {κ α : Type} {entries d m : List (κ × α)} {k : κ} {v : α}

/-! ### Values -/

lemma has_eq_isSome [BEq κ] (d : List (κ × α)) (k) : has d k = (get? d k).isSome := by
  unfold has get?
  rw [Option.isSome_map, Bool.eq_iff_iff, any_eq_true, List.find?_isSome]

lemma get?_append [BEq κ] (a b : List (κ × α)) (k) : get? (a ++ b) k = (get? a k).or (get? b k) := by
  unfold get?
  rw [List.find?_append, Option.map_or]

/-- A key is given a value where it stands or at the end: what is found then, for keys of any type and any way to
compare them that takes the keys which are the same as the new one for it. -/
lemma find?_put_of (same : κ → κ → Bool) {d : List (κ × α)} {k k'} (v)
    (h : ∀ x ∈ d, same x.1 k → same x.1 k' = same k k') (h' : ∀ x ∈ d, same x.1 k' → same k k' → same x.1 k) :
    ((if d.any (same ·.1 k) then d.map fun x => if same x.1 k then (x.1, v) else (x.1, x.2)
      else d ++ [(k, v)]).find? (same ·.1 k')).map (·.2) =
      if same k k' then some v else (d.find? (same ·.1 k')).map (·.2) := by
  let put (x : κ × α) : κ × α := if same x.1 k then (x.1, v) else (x.1, x.2)
  have keys : (same ·.1 k') ∘ put = (same ·.1 k') := by
    funext x
    simp only [Function.comp, put]
    split <;> rfl
  split
  · next hk =>
    obtain ⟨y, hy, hyk⟩ := any_eq_true.1 hk
    rw [List.find?_map, keys]
    cases hfind : d.find? (same ·.1 k') with
    | none =>
      rw [if_neg]
      · rfl
      · rw [← h y hy hyk]
        exact List.find?_eq_none.1 hfind y hy
    | some x =>
      have hx := mem_of_find?_eq_some hfind
      have hxk' : same x.1 k' = true := List.find?_some (p := fun x : κ × α => same x.1 k') hfind
      by_cases hxk : same x.1 k
      · simp [hxk, ← h x hx hxk, hxk']
      · simp [hxk, mt (h' x hx hxk') hxk]
  · next hk =>
    split
    · next hkey =>
      have absent : d.find? (same ·.1 k') = none :=
        List.find?_eq_none.2 fun x hx hxk => hk (any_eq_true.2 ⟨x, hx, h' x hx hxk hkey⟩)
      simp [absent, hkey]
    · next hkey => simp [hkey]

section Lawful
variable [BEq κ] [LawfulBEq κ]

lemma get?_set [DecidableEq κ] (d) (k k' : κ) (v : α) :
    get? (set d k v) k' = if k' = k then some v else get? d k' := by
  have found : get? (set d k v) k' = if k == k' then some v else get? d k' :=
    find?_put_of (· == ·) v (fun x _ hx => by rw [eq_of_beq hx]) fun x _ hx hk => BEq.trans hx (BEq.symm hk)
  exact found.trans (if_congr (beq_iff_eq.trans eq_comm) rfl rfl)

lemma get?_alter [DecidableEq κ] (d) (k k' : κ) (start : α) (f) :
    get? (alter d k start f) k' = if k' = k then some (f ((get? d k).getD start)) else get? d k' :=
  get?_set d k k' _

section
variable (h : (d.map (·.1)).Nodup)
include h

/-- In a dictionary with distinct keys an entry is the only one for its key. -/
lemma filter_of_mem (hx : x ∈ d) : d.filter (·.1 == x.1) = [x] := by
  obtain ⟨l, l', rfl⟩ := append_of_mem hx
  rw [map_append, map_cons, nodup_append', nodup_cons] at h
  obtain ⟨-, ⟨hl', -⟩, hl⟩ := h
  have before : l.filter (·.1 == x.1) = [] := by
    refine filter_eq_nil_iff.2 fun y hy heq => ?_
    exact hl (mem_map_of_mem hy) (eq_of_beq heq ▸ mem_cons_self ..)
  have behind : l'.filter (·.1 == x.1) = [] := by
    refine filter_eq_nil_iff.2 fun y hy heq => ?_
    exact hl' (eq_of_beq heq ▸ mem_map_of_mem hy)
  have own : (x.1 == x.1) = true := beq_self_eq_true x.1
  rw [filter_append, filter_cons, if_pos own, before, behind, nil_append]

/-- A dictionary with distinct keys holds what is found in it. -/
lemma mem_iff_get? : (k, v) ∈ d ↔ get? d k = some v := by
  constructor
  · intro hmem
    rw [get?, ← List.head?_filter, filter_of_mem h hmem, List.head?_cons, Option.map_some]
  · intro hget
    obtain ⟨⟨k', v'⟩, hfind, rfl⟩ := Option.map_eq_some_iff.1 hget
    obtain rfl : k' = k := by simpa using List.find?_some hfind
    exact mem_of_find?_eq_some hfind

end
end Lawful

/-! ### Entries, the last one counting -/

/-- The value of the last entry for a key. -/
def last? {κ : Type} [BEq κ] (entries : List (κ × α)) (k : κ) : Option α :=
  (entries.reverse.find? (·.1 == k)).map (·.2)

lemma last?_cons [BEq κ] (x : κ × α) (entries) (k) :
    last? (x :: entries) k = (last? entries k).or (if x.1 == k then some x.2 else none) := by
  rw [last?, reverse_cons, List.find?_append, Option.map_or, List.find?_singleton]
  cases x.1 == k <;> rfl

section Lawful
variable [BEq κ] [LawfulBEq κ]

lemma mem_of_last? (h : last? entries k = some v) : (k, v) ∈ entries := by
  obtain ⟨x, hx, rfl⟩ := Option.map_eq_some_iff.1 h
  obtain rfl : x.1 = k := by simpa using List.find?_some hx
  exact mem_reverse.1 (mem_of_find?_eq_some hx)

lemma last?_isSome {x : κ × α} (h : x ∈ entries) : (last? entries x.1).isSome = true := by
  rw [last?, Option.isSome_map, List.find?_isSome]
  exact ⟨x, mem_reverse.2 h, beq_self_eq_true x.1⟩

lemma last?_eq_get? (h : (d.map (·.1)).Nodup) (k) : last? d k = get? d k := by
  refine Option.ext fun v => ?_
  have reversed : (d.reverse.map (·.1)).Nodup := by simpa using h
  rw [← mem_iff_get? h, ← mem_reverse, mem_iff_get? reversed]
  rfl

lemma last?_map [BEq κ'] [LawfulBEq κ'] {c : κ → κ'}
    (hc : Function.Injective c) (f : α → β) (entries) (k) :
    last? (entries.map fun x => (c x.1, f x.2)) (c k) = (last? entries k).map f := by
  induction entries with
  | nil => rfl
  | cons x entries ih =>
    have hkey : (c x.1 == c k) = (x.1 == k) := by rw [Bool.eq_iff_iff, beq_iff_eq, beq_iff_eq, hc.eq_iff]
    rw [map_cons, last?_cons, last?_cons, ih, Option.map_or, hkey]
    cases x.1 == k <;> rfl

lemma get?_merge (a b : List (κ × α)) (k) : get? (merge a b) k = (last? b k).or (get? a k) := by
  induction b generalizing a with
  | nil => rfl
  | cons x b ih =>
    refine (ih _).trans ?_
    classical
    rw [get?_set, last?_cons, Option.or_assoc]
    by_cases h : k = x.1 <;> simp [h, Ne.symm]

lemma get?_merge_nil (m : List (κ × α)) (k) : get? (merge [] m) k = last? m k := by
  rw [get?_merge]
  exact Option.or_none

omit [LawfulBEq κ] in
lemma merge_flatMap {β : Type} (a : List (κ × α)) (l : List β) (f) :
    merge a (l.flatMap f) = l.foldl (fun d x => merge d (f x)) a :=
  foldl_flatMap

/-! ### Keys -/

lemma mem_keys_iff : k ∈ d.map (·.1) ↔ (get? d k).isSome = true := by
  rw [← has_eq_isSome]
  simp [has]

lemma set_of_not_mem (h : k ∉ d.map (·.1)) : set d k v = d ++ [(k, v)] := by
  rw [mem_keys_iff, ← has_eq_isSome] at h
  exact if_neg h

/-- Setting entries with new and distinct keys adds them at the end. -/
lemma merge_eq_append (h : ((d ++ entries).map (·.1)).Nodup) : merge d entries = d ++ entries := by
  induction entries generalizing d with
  | nil => exact (append_nil d).symm
  | cons x entries ih =>
    have hnew : x.1 ∉ d.map (·.1) := by
      rw [map_append, nodup_append'] at h
      exact fun hx => h.2.2 hx (.head _)
    refine Eq.trans ?_ ((ih (d := d ++ [x]) (by simpa using h)).trans (append_assoc ..))
    rw [← set_of_not_mem hnew]
    rfl

lemma merge_of_nodup (h : (entries.map (·.1)).Nodup) : merge [] entries = entries := merge_eq_append h

section
variable (h : (d.map (·.1)).Nodup)
include h

/-- A key of a dictionary is new, or its value is changed where it stands. -/
lemma alter_cases (k) (start) (f) : k ∉ d.map (·.1) ∧ alter d k start f = d ++ [(k, f start)] ∨
      ∃ l v l', d = l ++ (k, v) :: l' ∧ alter d k start f = l ++ (k, f v) :: l' := by
  have other {l : List (κ × α)} (hl : k ∉ l.map (·.1)) : ∀ x ∈ l, x.1 ≠ k := fun x hx heq =>
    hl (heq ▸ mem_map_of_mem hx)
  have keep {m : List (κ × α)} (hm : k ∉ m.map (·.1)) w :
      (m.map fun x => if x.1 == k then (x.1, w) else (x.1, x.2)) = m := by
    refine (map_congr_left fun x hx => ?_).trans (map_id m)
    simp [other hm x hx]
  unfold alter set has get?
  by_cases hk : k ∈ d.map (·.1)
  · obtain ⟨⟨k, v⟩, hv, rfl⟩ := mem_map.1 hk
    obtain ⟨l, l', rfl⟩ := append_of_mem hv
    rw [map_append, map_cons, nodup_append', nodup_cons] at h
    have before : k ∉ l.map (·.1) := fun hl => h.2.2 hl (.head _)
    refine .inr ⟨l, v, l', rfl, ?_⟩
    have first : (l ++ (k, v) :: l').find? (·.1 == k) = some (k, v) := by
      rw [List.find?_append, List.find?_eq_none.2 fun x hx => by simpa using other before x hx]
      simp
    rw [first, map_append, map_cons, keep before, keep h.2.1.1]
    simp
  · refine .inl ⟨hk, ?_⟩
    have none : d.find? (·.1 == k) = none := List.find?_eq_none.2 fun x hx => by simpa using other hk x hx
    rw [if_neg, none]
    · rfl
    · simpa using hk

lemma nodup_alter (k) (start) (f) : ((alter d k start f).map (·.1)).Nodup := by
  rcases alter_cases h k start f with ⟨hk, heq⟩ | ⟨l, v, l', rfl, heq⟩
  · rw [heq, map_append, map_singleton, ← concat_eq_append]
    exact h.concat hk
  · rw [heq]
    simpa using h

end

lemma nodup_merge (h : (d.map (·.1)).Nodup) (entries) : ((merge d entries).map (·.1)).Nodup := by
  induction entries generalizing d with
  | nil => exact h
  | cons x entries ih => exact ih (nodup_alter h x.1 x.2 fun _ => x.2)

lemma mem_merge_nil : (k, v) ∈ merge [] m ↔ last? m k = some v := by
  rw [mem_iff_get? (nodup_merge (d := []) nodup_nil m), get?_merge_nil]

lemma mem_alter {d : List (κ × List α)} (h : (d.map (·.1)).Nodup) (k tag) (more) (x : α) :
    (∃ f ∈ alter d k [] (· ++ more), f.1 = tag ∧ x ∈ f.2) ↔ (∃ f ∈ d, f.1 = tag ∧ x ∈ f.2) ∨ tag = k ∧ x ∈ more := by
  rcases alter_cases h k [] (· ++ more) with ⟨hk, heq⟩ | ⟨l, v, l', rfl, heq⟩
  · rw [heq]
    simp [eq_comm]
  · rw [heq]
    simp only [mem_append, mem_cons, or_and_right]
    grind

end Lawful
end GlyphRules.Dict
