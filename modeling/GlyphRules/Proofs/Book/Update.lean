import GlyphRules.Book.Partition
import GlyphRules.Proofs.Step

/-! A book after an update.

What is read after each update: a routine that was altered, added or given other rules, a rule that
was altered, and a rule whose calls were set with those of its group. -/
namespace GlyphRules

open Option Array

variable {b : Book} {i j : RoutineId}

/-! ### Routines -/

namespace Book

lemma routine_eq (b : Book) (i) : b.routine i = b.routines[i]?.getD {} := by
  simp [routine]

lemma routine_of_eq {b' : Book} (h : b'.routines = b.routines) (j) : b'.routine j = b.routine j := by
  unfold routine
  rw [h]

lemma rule_of_eq {b' : Book} (h : b'.rules = b.rules) (id) : b'.rule id = b.rule id := by
  unfold rule
  rw [h]

lemma routine_of_size_le (h : b.routines.size ≤ i) : b.routine i = {} := by
  rw [routine_eq, getElem?_eq_none h]
  rfl

@[simp] lemma size_alterRoutine (b : Book) (i) (f) :
    (b.alterRoutine i f).routines.size = b.routines.size := size_modify

lemma routine_alterRoutine_self (h : i < b.routines.size) (f) :
    (b.alterRoutine i f).routine i = f (b.routine i) := by
  simp only [routine_eq, alterRoutine, getElem?_modify, getElem?_eq_getElem h]
  rfl

lemma routine_alterRoutine_ne (b : Book) (h : j ≠ i) (f) :
    (b.alterRoutine i f).routine j = b.routine j := by
  simp [routine_eq, alterRoutine, getElem?_modify, h.symm]

lemma routine_alterRoutine_eq {α : Type} (b : Book) (i) {f}
    {view : Routine → α} (h : ∀ r, view (f r) = view r) (j) :
    view ((b.alterRoutine i f).routine j) = view (b.routine j) := by
  by_cases hj : j = i
  · subst hj
    by_cases hlt : j < b.routines.size
    · rw [routine_alterRoutine_self hlt, h]
    · have hle : b.routines.size ≤ j := Nat.le_of_not_lt hlt
      rw [routine_of_size_le hle, routine_of_size_le (by simpa using hle)]
  · rw [routine_alterRoutine_ne b hj]

lemma routine_addRoutine (b : Book) (r) (j) :
    (b.addRoutine r).2.routine j = if j = b.routines.size then r else b.routine j := by
  simp only [routine_eq, addRoutine, getElem?_push]
  split <;> rfl

lemma withRules_of_ne {r : Routine} (h : ∀ ids, r.content ≠ .rules ids) (g) : r.withRules g = r := by
  unfold Routine.withRules
  split
  · next ids hids => exact absurd hids (h ids)
  · rfl
  · rfl

lemma content_withRules {r : Routine} {ids} (h : r.content = .rules ids) (g) :
    (r.withRules g).content = .rules g := by
  rw [Routine.withRules, h]

lemma lt_of_ruleIds (h : b.ruleIds i ≠ []) : i < b.routines.size := by
  refine Nat.lt_of_not_le fun hle => h ?_
  unfold ruleIds ruleIdsWithin
  rw [routine_of_size_le hle]

def append (b : Book) (more : List Routine) : Book :=
  { b with routines := b.routines ++ more.toArray }

lemma routine_append_left (h : j < b.routines.size) (more) :
    (b.append more).routine j = b.routine j := by
  simp only [routine_eq, append, getElem?_append_left h]

end Book

/-- Nothing but the rules is other than before. -/
def OnlyRules (b b' : Book) : Prop := { b' with rules := b.rules } = b

instance : Std.Refl OnlyRules := ⟨fun _ => rfl⟩

instance : Trans OnlyRules OnlyRules OnlyRules := by
  refine ⟨fun {a b c} h h' => ?_⟩
  rw [OnlyRules, ← h, ← h']

namespace OnlyRules
variable {b' : Book} (h : OnlyRules b b')
include h

lemma routines : b'.routines = b.routines := congrArg (·.routines) h

lemma routine (j) : b'.routine j = b.routine j := Book.routine_of_eq h.routines j

lemma order : b'.order = b.order := congrArg (·.order) h

lemma features : b'.features = b.features := congrArg (·.features) h

end OnlyRules

namespace Book

/-! ### Rules of routines -/

/-- The rules of routines depend on nothing but their contents. -/
lemma ruleIds_of_content {b b' : Book} (hsize : b'.routines.size = b.routines.size)
    (h : ∀ j, (b'.routine j).content = (b.routine j).content) (i) : b'.ruleIds i = b.ruleIds i := by
  have within (fuel i) : b'.ruleIdsWithin fuel i = b.ruleIdsWithin fuel i := by
    induction fuel generalizing i with
    | zero => rfl
    | succ fuel ih =>
      unfold ruleIdsWithin
      rw [h, funext ih]
  unfold ruleIds
  rw [hsize, within]

lemma ruleIds_rules (h : (b.routine i).content = .rules ids) : b.ruleIds i = ids := by
  unfold ruleIds ruleIdsWithin
  rw [h]

/-! ### Calls of rules -/

lemma rule_eq (b : Book) (i) : b.rule i = b.rules[i]?.getD default := by
  simp [rule]

lemma rule_of_size_le {i : RuleId} (h : b.rules.size ≤ i) : b.rule i = default := by
  rw [rule_eq, getElem?_eq_none h]
  rfl

lemma forall_rule {p : Rule → Prop} (h : ∀ r ∈ b.rules, p r) (hdefault : p default) (i) : p (b.rule i) := by
  rcases Nat.lt_or_ge i b.rules.size with hlt | hle
  · rw [rule_eq, getElem?_eq_getElem hlt]
    exact h _ (getElem_mem hlt)
  · rwa [rule_of_size_le hle]

lemma rule_alterRule_self {i : RuleId} (h : i < b.rules.size) (f) :
    (b.alterRule i f).rule i = f (b.rule i) := by
  simp only [rule_eq, alterRule, getElem?_modify, getElem?_eq_getElem h]
  rfl

lemma rule_alterRule_ne (b : Book) {i j} (h : j ≠ i) (f) :
    (b.alterRule i f).rule j = b.rule j := by
  simp [rule_eq, alterRule, getElem?_modify, h.symm]

lemma rule_addRule (b : Book) (r) (id) :
    (b.addRule r).2.rule id = if id = b.rules.size then r else b.rule id := by
  simp only [rule_eq, addRule, getElem?_push]
  split <;> rfl

lemma isSome_and_eq {x y : Option Nat} : x.isSome ∧ x = y ↔ ∃ g, x = some g ∧ y = some g := by
  cases x with
  | none => simp
  | some g => simp [eq_comm]

/-- Whether two rules are the same or chains of one group. -/
def shares (b : Book) (u id : RuleId) : Bool :=
  u == id || ((b.rule u).group?.isSome && (b.rule u).group? == (b.rule id).group?)

lemma shares_iff {u id} : b.shares u id = true ↔
    u = id ∨ ∃ g, (b.rule u).group? = some g ∧ (b.rule id).group? = some g := by
  rw [shares, Bool.or_eq_true, beq_iff_eq, Bool.and_eq_true, beq_iff_eq]
  exact or_congr_right isSome_and_eq

lemma rule_setCalls {u : RuleId} (h : u < b.rules.size) (calls) (id) :
    (b.setCalls u calls).rule id = if b.shares u id then (b.rule id).withCalls calls else b.rule id := by
  unfold setCalls shares
  cases hg : (b.rule u).group? with
  | none =>
    simp only [isSome_none, Bool.false_and, Bool.or_false, beq_iff_eq]
    simp only [rule_eq, alterRule, getElem?_modify]
    split
    · next hu => rw [← hu, getElem?_eq_getElem h, map_some, getD_some, getD_some]
    · rfl
  | some g =>
    have own : u = id → (b.rule id).group? = some g := fun hu => hu ▸ hg
    simp only [isSome_some, Bool.true_and, Bool.or_eq_true, beq_iff_eq]
    by_cases hid : id < b.rules.size
    · simp only [rule_eq, getElem?_map, getElem?_eq_getElem hid, map_some, getD_some] at own ⊢
      by_cases hgroup : b.rules[id].group? = some g
      · rw [if_pos hgroup, if_pos (.inr hgroup.symm)]
      · rw [if_neg hgroup, if_neg]
        rintro (hu | hu)
        · exact hgroup (own hu)
        · exact hgroup hu.symm
    · have hle : b.rules.size ≤ id := Nat.le_of_not_lt hid
      rw [rule_of_size_le (by simpa using hle), rule_of_size_le hle, if_neg]
      rintro (hu | hu)
      · exact hid (hu ▸ h)
      · cases hu

lemma setCalls_of_size_le {user : RuleId} (h : b.rules.size ≤ user) (calls) : b.setCalls user calls = b := by
  rw [setCalls, rule_of_size_le h]
  have same : (b.rules.modify user fun r => r.withCalls calls) = b.rules := by
    refine ext_getElem? fun i => ?_
    rw [getElem?_modify]
    split
    · next hi => rw [← hi, getElem?_eq_none h]; rfl
    · rfl
  show { b with rules := b.rules.modify user fun r => r.withCalls calls } = b
  rw [same]

end Book
end GlyphRules
