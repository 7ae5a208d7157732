import Mathlib.Data.List.Basic
import Mathlib.Logic.Function.Iterate
import GlyphRules.Proofs.Book.Update

/-! Chains that are made to call other routines.

When a routine is split, each call of it becomes a call of each of the new routines (`callEach`).
Chains of one group have their calls in common, so a chain is redirected once for each user in its
group (`Act.Redirected`). -/
namespace GlyphRules

open Step Rule Book Option

variable {b : Book} {r : Rule} {c : Chaining}

/-! ### Calls -/

def callEach (name : Option String) (old : RoutineId) (new : List RoutineId) (l : Lookup) : List Lookup :=
  if l.routine? = some old then new.map fun i => .ref ⟨some name, some i⟩ else [l]

lemma replaceCall_eq {new} (h : ∀ j ∈ new, (b.routine j).name = name)
    (old) : replaceCall b old new = callEach name old new := by
  funext l
  unfold replaceCall callEach
  by_cases hl : l.routine? = some old
  · rw [if_pos (by simpa using hl), if_pos hl]
    refine List.map_congr_left fun j hj => ?_
    rw [← h j hj]
    rfl
  · rw [if_neg (by simpa using hl), if_neg hl]

/-- The calls of a chain; other rules have none. -/
def Rule.chained (r : Rule) : Calls :=
  match r.body with
  | .chaining c => c.calls
  | _ => []

lemma Rule.chained_chaining (h : r.body = .chaining c) : r.chained = c.calls := by
  rw [chained, h]

lemma Rule.chained_of_ne (h : ∀ c, r.body ≠ .chaining c) : r.chained = [] := by
  unfold chained
  split
  · next c hc => exact absurd hc (h c)
  · rfl

lemma Calls.mem_entries {c : Calls} {l} : l ∈ c.entries ↔ ∃ ls, some ls ∈ c ∧ l ∈ ls := by
  simp [Calls.entries]

lemma Book.dependencies_eq (r) : dependencies r = r.chained.entries.map Lookup.routine? := by
  unfold dependencies chained
  cases r.body <;> rfl

/-- A chain with its calls changed at every position. -/
def Rule.mapCalls (f : List Lookup → List Lookup) (r : Rule) : Rule :=
  match r.body with
  | .chaining c => { r with body := .chaining { c with calls := c.calls.map (Option.map f) } }
  | _ => r

namespace Rule

lemma group?_withCalls (r : Rule) (calls) : (r.withCalls calls).group? = r.group? := by
  obtain ⟨body, -, -, -, -, -⟩ := r
  cases body <;> rfl

lemma withCalls_withCalls (r : Rule) (calls calls') :
    (r.withCalls calls).withCalls calls' = r.withCalls calls' := by
  obtain ⟨body, -, -, -, -, -⟩ := r
  cases body <;> rfl

lemma calls_chaining (h : r.body = .chaining c) : r.calls = some c.calls := by
  rw [calls, h]

lemma mapCalls_of_eq (h : ∀ l ∈ r.chained.entries, f l = [l]) :
    r.mapCalls (·.flatMap f) = r := by
  unfold mapCalls
  split
  · next c hc =>
    rw [chained_chaining hc] at h
    have same : c.calls.map (Option.map (·.flatMap f)) = c.calls := by
      refine (List.map_congr_left fun slot hslot => ?_).trans (List.map_id c.calls)
      cases slot with
      | none => rfl
      | some ls =>
        have : ls.flatMap f = ls := by
          refine (List.flatMap_congr fun l hl => ?_).trans (List.flatMap_singleton' ls)
          exact h l (Calls.mem_entries.2 ⟨ls, hslot, hl⟩)
        simp [this]
    rw [same]
    cases r
    cases hc
    rfl
  · rfl

lemma mapCalls_of_not_mem (h : some old ∉ dependencies r) (name)
    (new) : r.mapCalls (·.flatMap (callEach name old new)) = r := by
  refine mapCalls_of_eq fun l hl => if_neg fun hl' => h ?_
  rw [dependencies_eq]
  exact List.mem_map.2 ⟨l, hl, hl'⟩

end Rule

/-! ### Redirecting the users -/

def Book.Coherent (b : Book) : Prop :=
  ∀ u id g, (b.rule u).group? = some g → (b.rule id).group? = some g → (b.rule id).calls = (b.rule u).calls

/-- The calls of a rule were set, with those of its group. -/
structure Called (b b' : Book) (u : RuleId) (calls : Calls) : Prop where
  rest : { b' with rules := b.rules } = b
  size : b'.rules.size = b.rules.size
  rule : ∀ id, b'.rule id = if b.shares u id then (b.rule id).withCalls calls else b.rule id

namespace Called
variable {b' : Book} {u : RuleId} {calls : Calls}

section
variable (h : Called b b' u calls)
include h

lemma routines : b'.routines = b.routines := by rw [← h.rest]

lemma routine (j) : b'.routine j = b.routine j :=
  routine_of_eq h.routines j

lemma shares (x id) : b'.shares x id = b.shares x id := by
  have group (id) : (b'.rule id).group? = (b.rule id).group? := by
    rw [h.rule]
    split
    · exact group?_withCalls _ _
    · rfl
  unfold Book.shares
  rw [group, group]

end

lemma of_setCalls (h : u < b.rules.size) (calls) : Called b (b.setCalls u calls) u calls := by
  refine ⟨?_, ?_, rule_setCalls h calls⟩
  · unfold setCalls
    split <;> rfl
  · unfold setCalls
    split
    · exact Array.size_map
    · exact Array.size_modify

lemma trans {calls'} (h : Called b b' u calls) (h' : Called b' b'' u calls') :
    Called b b'' u calls' := by
  refine ⟨?_, h'.size.trans h.size, fun id => ?_⟩
  · rw [← h.rest, ← h'.rest]
  · rw [h'.rule, h.shares, h.rule]
    split
    · exact withCalls_withCalls _ _ _
    · rfl

end Called

lemma Rule.chaining_of_group? (h : r.group? = some g) : ∃ c, r.body = .chaining c := by
  unfold group? at h
  split at h
  · next c hc => exact ⟨c, hc⟩
  · cases h

lemma lt_of_chaining (h : (b.rule u).body = .chaining c) : u < b.rules.size := by
  refine Nat.lt_of_not_le fun hle => ?_
  rw [rule_of_size_le hle] at h
  cases h

namespace Book.Coherent
variable {b' : Book} {u id : RuleId}

section
variable (h : b.Coherent) (hu : (b.rule u).body = .chaining c)
include h hu

lemma alike (hs : b.shares u id = true) : ∃ c', (b.rule id).body = .chaining c' ∧ c'.calls = c.calls := by
  rcases shares_iff.1 hs with rfl | ⟨g, hug, hidg⟩
  · exact ⟨c, hu, rfl⟩
  · obtain ⟨c', hc'⟩ := chaining_of_group? hidg
    have := h u id g hug hidg
    rw [calls_chaining hc', calls_chaining hu] at this
    exact ⟨c', hc', some_inj.1 this⟩

lemma called : Called b b u c.calls := by
  refine ⟨rfl, rfl, fun id => ?_⟩
  split
  · next hs =>
    obtain ⟨c', hc', hcalls⟩ := h.alike hu hs
    rw [← hcalls]
    generalize b.rule id = r at hc' ⊢
    cases r
    cases hc'
    rfl
  · rfl

lemma rule_called (hb' : Called b b' u (c.calls.map (Option.map f))) (id) :
    b'.rule id = if b.shares u id then (b.rule id).mapCalls f else b.rule id := by
  rw [hb'.rule]
  split
  · next hs =>
    obtain ⟨c', hc', hcalls⟩ := h.alike hu hs
    rw [← hcalls, withCalls, mapCalls, hc']
  · rfl

end

lemma of_called (h : b.Coherent) {calls} (hb' : Called b b' u calls) : b'.Coherent := by
  intro x y g hx hy
  have group (id) : (b'.rule id).group? = (b.rule id).group? := by
    rw [hb'.rule]
    split
    · exact group?_withCalls _ _
    · rfl
  rw [group] at hx hy
  have along {x y} (hx : (b.rule x).group? = some g) (hy : (b.rule y).group? = some g)
      (hs : b.shares u x = true) : b.shares u y = true := by
    rcases shares_iff.1 hs with rfl | ⟨g', hu, hxg⟩
    · exact shares_iff.2 (.inr ⟨g, hx, hy⟩)
    · rw [hx] at hxg
      exact shares_iff.2 (.inr ⟨g, hxg ▸ hu, hy⟩)
  have both : b.shares u x = b.shares u y := Bool.eq_iff_iff.2 ⟨along hx hy, along hy hx⟩
  rw [hb'.rule, hb'.rule, both]
  split
  · obtain ⟨cx, hcx⟩ := Rule.chaining_of_group? hx
    obtain ⟨cy, hcy⟩ := chaining_of_group? hy
    simp only [Rule.withCalls, hcx, hcy, Rule.calls]
  · exact h x y g hx hy

end Book.Coherent

namespace Act

section Redirect
variable (old : RoutineId) {new : List RoutineId} {name : Option String} {u : RuleId}

lemma redirect_slots {todo : List (List Lookup)} {done} (hb : b.Coherent)
    (hu : (b.rule u).body = .chaining c) (hcalls : c.calls = done ++ todo.map some)
    (hnames : ∀ j ∈ new, (b.routine j).name = name) :
    ∃ b', (((todo.map some).zipIdx done.length).forM (redirectSlot old new u)).on b = (.ok (), b') ∧
      Called b b' u (done ++ todo.map fun l => some (l.flatMap (callEach name old new))) := by
  induction todo generalizing done b c with
  | nil => exact ⟨b, rfl, by simpa [hcalls] using hb.called hu⟩
  | cons l todo ih =>
    let calls := done ++ some (l.flatMap (callEach name old new)) :: todo.map some
    have hset : ((b.rule u).calls.getD []).set done.length (some (l.flatMap (replaceCall b old new))) =
        calls := by
      rw [calls_chaining hu, hcalls, replaceCall_eq hnames]
      simp [calls]
    have first : (redirectSlot old new u (some l, done.length)).on b = (.ok (), b.setCalls u calls) := by
      rw [← hset]
      rfl
    have step := Called.of_setCalls (lt_of_chaining hu) calls
    have hu' : ((b.setCalls u calls).rule u).body = .chaining { c with calls } := by
      rw [step.rule, if_pos (shares_iff.2 (.inl rfl)), withCalls, hu]
    have names (j) (hj : j ∈ new) : ((b.setCalls u calls).routine j).name = name := by
      rw [routine_of_eq step.routines]
      exact hnames j hj
    have hcalls' : calls = (done ++ [some (l.flatMap (callEach name old new))]) ++ todo.map some := by
      simp [calls]
    obtain ⟨b', hb', called⟩ := ih (hb.of_called step) hu' hcalls' names
    refine ⟨b', ?_, ?_⟩
    · refine (on_bind_ok first _).trans ?_
      simpa using hb'
    · simpa using step.trans called

lemma exists_eq_map_some {α : Type} {l} (h : none ∉ l) : ∃ as : List α, l = as.map some := by
  induction l with
  | nil => exact ⟨[], rfl⟩
  | cons a l ih =>
    obtain ⟨has, hl⟩ := List.ne_and_not_mem_of_not_mem_cons h
    obtain ⟨as, rfl⟩ := ih hl
    obtain ⟨a, rfl⟩ := ne_none_iff_exists'.1 has.symm
    exact ⟨a :: as, rfl⟩

lemma redirect_on (hb : b.Coherent) (hu : (b.rule u).body = .chaining c) (hslots : none ∉ c.calls)
    (hnames : ∀ j ∈ new, (b.routine j).name = name) :
    ∃ b', (redirect old new u).on b = (.ok (), b') ∧
      Called b b' u (c.calls.map (Option.map (·.flatMap (callEach name old new)))) := by
  obtain ⟨todo, htodo⟩ := exists_eq_map_some hslots
  have hcalls : c.calls = [] ++ todo.map some := htodo
  obtain ⟨b', hb', called⟩ := redirect_slots old hb hu hcalls hnames
  refine ⟨b', ?_, ?_⟩
  · rw [redirect, on_get_bind]
    simp only [calls_chaining hu, htodo]
    exact hb'
  · rwa [htodo, List.map_map]

structure Redirected (b b' : Book) (f : List Lookup → List Lookup) (users : List RuleId) : Prop where
  rest : { b' with rules := b.rules } = b
  size : b'.rules.size = b.rules.size
  rule : ∀ id, b'.rule id = (Rule.mapCalls f)^[users.countP (b.shares · id)] (b.rule id)
  coherent : b'.Coherent

lemma forM_redirect_on (hb : b.Coherent)
    (husers : ∀ u ∈ users, ∃ c, (b.rule u).body = .chaining c ∧ none ∉ c.calls)
    (hnames : ∀ j ∈ new, (b.routine j).name = name) :
    ∃ b', (users.forM (redirect old new)).on b = (.ok (), b') ∧
      Redirected b b' (·.flatMap (callEach name old new)) users := by
  induction users generalizing b with
  | nil => exact ⟨b, rfl, rfl, rfl, fun _ => rfl, hb⟩
  | cons u users ih =>
    obtain ⟨c, hc, hslots⟩ := husers u (.head _)
    obtain ⟨b₁, h₁, called⟩ := redirect_on old hb hc hslots hnames
    have rules := hb.rule_called hc called
    have chains (x) (hx : x ∈ users) : ∃ c, (b₁.rule x).body = .chaining c ∧ none ∉ c.calls := by
      obtain ⟨c, hc, hslots⟩ := husers x (.tail _ hx)
      rw [rules]
      split
      · rw [mapCalls, hc]
        exact ⟨_, rfl, by simpa using hslots⟩
      · exact ⟨c, hc, hslots⟩
    obtain ⟨b₂, h₂, redirected⟩ := ih (hb.of_called called) chains fun j hj => called.routine j ▸ hnames j hj
    refine ⟨b₂, (on_bind_ok h₁ _).trans h₂, ?_, redirected.size.trans called.size, fun id => ?_, redirected.coherent⟩
    · rw [← called.rest, ← redirected.rest]
    · rw [redirected.rule, rules, List.countP_cons]
      simp only [called.shares]
      split
      · rw [← Function.iterate_succ_apply]
      · rfl

end Redirect
end Act

end GlyphRules
