import GlyphRules.Proofs.Book.Update

/-! Counting the users of routines.

`Act.markUsage` notes each chain in force at the routines that it calls. Nothing else changes
(`Marked`), and each routine in force ends with its users, each once. -/
namespace GlyphRules

open Step List Book Routine

/-- Two books with the same rules, order and features, and with the same routines apart from
their users. -/
structure Marked (b b' : Book) : Prop where
  rest : { b' with routines := b.routines, usageMarked := b.usageMarked } = b
  size : b'.routines.size = b.routines.size
  routine : ∀ j, (b'.routine j).unmarked = (b.routine j).unmarked

namespace Marked
variable {b b' : Book}

lemma refl (b) : Marked b b := ⟨rfl, rfl, fun _ => rfl⟩

lemma trans (h : Marked b b') (h' : Marked b' b'') : Marked b b'' := by
  refine ⟨?_, h'.size.trans h.size, fun j => (h'.routine j).trans (h.routine j)⟩
  rw [← h.rest, ← h'.rest]

section
variable (h : Marked b b')
include h

lemma rules : b'.rules = b.rules := by rw [← h.rest]

lemma order : b'.order = b.order := by rw [← h.rest]

lemma features : b'.features = b.features := by rw [← h.rest]

lemma rule (id) : b'.rule id = b.rule id :=
  rule_of_eq h.rules id

lemma content (j) : (b'.routine j).content = (b.routine j).content :=
  congrArg (·.content) (h.routine j)

lemma ruleIds (j) : b'.ruleIds j = b.ruleIds j :=
  ruleIds_of_content h.size h.content j

lemma allRules : b'.allRules = b.allRules := by
  unfold Book.allRules
  rw [h.order, funext h.ruleIds]

end

lemma alterRoutine (b) (i) {f} (h : ∀ r, (f r).unmarked = r.unmarked) :
    Marked b (b.alterRoutine i f) :=
  ⟨rfl, b.size_alterRoutine i f, (b.routine_alterRoutine_eq i h)⟩

end Marked

/-! ### One user after the other -/

structure Noted (b b' : Book) (uses : RuleId → RoutineId → Prop) : Prop where
  marked : Marked b b'
  users : ∀ j < b.routines.size, ∀ x, x ∈ (b'.routine j).usedIn ↔ x ∈ (b.routine j).usedIn ∨ uses x j
  nodup : ∀ j, (b.routine j).usedIn.Nodup → (b'.routine j).usedIn.Nodup

lemma Noted.refl (b) : Noted b b fun _ _ => False :=
  ⟨.refl b, by simp, fun _ h => h⟩

lemma Noted.trans {uses more} (h : Noted b b' uses)
    (h' : Noted b' b'' more) : Noted b b'' fun x j => uses x j ∨ more x j := by
  refine ⟨h.marked.trans h'.marked, fun j hj x => ?_, fun j hj => h'.nodup j (h.nodup j hj)⟩
  rw [h'.users j (h.marked.size ▸ hj), h.users j hj, or_assoc]

lemma Noted.congr {uses uses'} (h : Noted b b' uses)
    (hiff : ∀ x j, uses x j ↔ uses' x j) : Noted b b' uses' :=
  ⟨h.marked, fun j hj x => by rw [h.users j hj, hiff], h.nodup⟩

lemma mem_noteUser (r : Routine) (id x) : x ∈ (r.noteUser id).usedIn ↔ x ∈ r.usedIn ∨ x = id := by
  unfold noteUser
  split
  · next h =>
    have : id ∈ r.usedIn := by simpa using h
    constructor
    · exact .inl
    · rintro (hx | rfl)
      · exact hx
      · exact this
  · simp

lemma nodup_noteUser {r : Routine} (h : r.usedIn.Nodup) (id) : (r.noteUser id).usedIn.Nodup := by
  unfold noteUser
  split
  · exact h
  · next hid =>
    have : id ∉ r.usedIn := by simpa using hid
    refine nodup_append.2 ⟨h, by simp, ?_⟩
    rintro x hx y hy rfl
    exact this (mem_singleton.1 hy ▸ hx)

lemma noted_alter (b) (id) (i) :
    Noted b (b.alterRoutine i (·.noteUser id)) fun x j => x = id ∧ j = i := by
  refine ⟨.alterRoutine b i fun r => ?_, fun j hj x => ?_, fun j hj => ?_⟩
  · unfold noteUser
    split <;> rfl
  · by_cases h : j = i
    · subst h
      rw [routine_alterRoutine_self hj, mem_noteUser]
      simp
    · rw [b.routine_alterRoutine_ne h]
      simp [h]
  · by_cases h : j = i
    · subst h
      by_cases hlt : j < b.routines.size
      · rw [routine_alterRoutine_self hlt]
        exact nodup_noteUser hj id
      · rw [routine_of_size_le (by simpa using hlt)]
        exact nodup_nil
    · rwa [b.routine_alterRoutine_ne h]

namespace Act

lemma forM_countCall_on {id} {ls : List Lookup} (h : ∀ l ∈ ls, l.routine? ≠ none) (b) :
    ∃ b', (ls.forM (countCall id)).on b = (.ok (), b') ∧
      Noted b b' fun x j => x = id ∧ some j ∈ ls.map Lookup.routine? := by
  induction ls generalizing b with
  | nil => exact ⟨b, rfl, (Noted.refl b).congr (by simp)⟩
  | cons l ls ih =>
    obtain ⟨i, hi⟩ := Option.ne_none_iff_exists'.1 (h l (.head _))
    have h₁ : (countCall id l).on b = (.ok (), b.alterRoutine i (·.noteUser id)) := by rw [countCall, hi]; rfl
    obtain ⟨b₂, h₂, noted₂⟩ := ih (fun l hl => h l (.tail _ hl)) _
    refine ⟨b₂, (on_bind_ok h₁ _).trans h₂, ((noted_alter b id i).trans noted₂).congr fun x j => ?_⟩
    rw [map_cons, mem_cons, and_or_left, hi, Option.some_inj]

lemma countCalls_on {id} {b} (h : none ∉ dependencies (b.rule id)) :
    ∃ b', (countCalls id).on b = (.ok (), b') ∧ Noted b b' fun x j => x = id ∧ some j ∈ dependencies (b.rule id) := by
  rw [countCalls, on_get_bind]
  unfold dependencies at h ⊢
  split
  · next c hc =>
    simp only [hc] at h ⊢
    exact forM_countCall_on (fun l hl hnone => h (mem_map.2 ⟨l, hl, hnone⟩)) b
  · next hc =>
    exact ⟨b, rfl, (Noted.refl b).congr (by simp)⟩

lemma forM_countCalls_on (ids : List RuleId) {b} (h : ∀ id ∈ ids, none ∉ dependencies (b.rule id)) :
    ∃ b', (ids.forM countCalls).on b = (.ok (), b') ∧
      Noted b b' fun x j => x ∈ ids ∧ some j ∈ dependencies (b.rule x) := by
  induction ids generalizing b with
  | nil => exact ⟨b, rfl, (Noted.refl b).congr (by simp)⟩
  | cons id ids ih =>
    obtain ⟨b₁, h₁, noted₁⟩ := countCalls_on (h id (.head _))
    obtain ⟨b₂, h₂, noted₂⟩ := ih fun id hid => by
      rw [noted₁.marked.rule]
      exact h id (.tail _ hid)
    refine ⟨b₂, (on_bind_ok h₁ _).trans h₂, (noted₁.trans noted₂).congr fun x j => ?_⟩
    rw [noted₁.marked.rule, mem_cons, or_and_right]
    constructor
    all_goals
      rintro (⟨rfl, hj⟩ | hx)
      · exact .inl ⟨rfl, hj⟩
      · exact .inr hx

end Act

/-! ### The whole count -/

lemma routine_unmark (b : Book) (i j) :
    (b.alterRoutine i unmarked).routine j = if j = i then (b.routine j).unmarked else b.routine j := by
  split
  · next h =>
    subst h
    by_cases hlt : j < b.routines.size
    · exact routine_alterRoutine_self hlt _
    · rw [routine_of_size_le (by simpa using hlt), routine_of_size_le (Nat.le_of_not_lt hlt)]
      rfl
  · next h => exact b.routine_alterRoutine_ne h _

lemma routine_reset (order : List RoutineId) (b : Book) (j) :
    (order.foldl (fun b i => b.alterRoutine i unmarked) b).routine j =
      if j ∈ order then (b.routine j).unmarked else b.routine j := by
  induction order generalizing b with
  | nil => rfl
  | cons i order ih =>
    rw [foldl_cons, ih, routine_unmark]
    by_cases hi : j = i <;> by_cases horder : j ∈ order <;> simp [hi, unmarked]

/-- **Every routine in force ends with the chains that call it**, each once. -/
lemma Act.markUsage_on (hmarked : b.usageMarked = false)
    (hresolved : ∀ id ∈ b.allRules, none ∉ dependencies (b.rule id)) :
    ∃ b', Act.markUsage.on b = (.ok (), b') ∧ Marked b b' ∧
      ∀ j ∈ b.order, j < b.routines.size → (b'.routine j).usedIn.Nodup ∧
        ∀ x, x ∈ (b'.routine j).usedIn ↔ x ∈ b.allRules ∧ some j ∈ dependencies (b.rule x) := by
  let b₁ := b.order.foldl (fun b i => b.alterRoutine i unmarked) b
  have reset : Marked b b₁ := foldlRecOn b.order _ (motive := Marked b) (.refl b) fun _ marked i _ =>
    marked.trans (.alterRoutine _ i fun _ => rfl)
  obtain ⟨b₂, h₂, noted⟩ := Act.forM_countCalls_on b.allRules fun id hid => by
    rw [reset.rule]
    exact hresolved id hid
  have marked : Marked b₂ { b₂ with usageMarked := true } := ⟨rfl, rfl, fun _ => rfl⟩
  refine ⟨{ b₂ with usageMarked := true }, ?_, (reset.trans noted.marked).trans marked, fun j hj hlt => ?_⟩
  · rw [Act.markUsage, on_get_bind, hmarked]
    exact (on_bind_ok (on_set b b₁) _).trans (on_bind_ok h₂ _)
  · have none_yet : (b₁.routine j).usedIn = [] := by
      rw [routine_reset, if_pos hj]
      rfl
    refine ⟨noted.nodup j (by simp [none_yet]), fun x => ?_⟩
    have := noted.users j (reset.size ▸ hlt) x
    rw [none_yet, reset.rule] at this
    show x ∈ (b₂.routine j).usedIn ↔ _
    simpa using this

end GlyphRules
