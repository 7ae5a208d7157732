import Mathlib.Data.List.DropRight
import Mathlib.Data.List.Find
import GlyphRules.Proofs.Optimise.MergedCalls
import GlyphRules.Proofs.Shaping.Effect
import GlyphRules.Proofs.Text

/-! Routines without common glyphs, run as one.

An effect that reads and writes glyphs of one kind only (`Effect.Within`) sees nothing beyond the
run of such glyphs around a place. Of two effects without common glyphs neither changes the runs of
the other: what one writes stands where glyphs of its kind stood. So one sweep in which the first
that has something to do does it is two sweeps (`sweep_or`), and merged routines shape as the two
did one after the other (`mergeRoutines_shapes`). -/
namespace GlyphRules.Shaping

open Step List Rewrite Shape Optimise Book

variable {glyphs : List String} {font : Font} {ids : List RuleId} {p : String → Bool} {i id l : RoutineId}

/-! ### Runs of glyphs -/

section Runs
variable {α : Type} {p : α → Bool}

lemma rtakeWhile_append_of_pos {l m : List α} (h : ∀ a ∈ m, p a) : (l ++ m).rtakeWhile p = l.rtakeWhile p ++ m := by
  unfold List.rtakeWhile
  rw [reverse_append, takeWhile_append_of_pos (by simpa using h), reverse_append, reverse_reverse]

lemma rtakeWhile_append_of_neg {l m} (hne : m ≠ []) (h : ∀ a ∈ m, p a = false) :
    (l ++ m).rtakeWhile p = [] := by
  refine rtakeWhile_eq_nil_iff.2 fun _ => ?_
  rw [getLast_append_of_ne_nil _ hne, h _ (getLast_mem hne)]
  exact Bool.false_ne_true

lemma takeWhile_append_of_neg {l m} (hne : l ≠ []) (h : ∀ a ∈ l, p a = false) :
    (l ++ m).takeWhile p = [] := by
  obtain ⟨a, l, rfl⟩ := exists_cons_of_ne_nil hne
  rw [cons_append, takeWhile_cons, h a (.head _)]
  rfl

end Runs

namespace Effect

def or (e e' : Effect) : Effect := fun done rest => (e done rest).or (e' done rest)

/-- An effect on glyphs of one kind: it takes up some of them and writes some, and it sees no further than they
stand together. -/
structure Within (p : String → Bool) (e : Effect) : Prop where
  takes : ∀ {done rest x}, e done rest = some x → 0 < x.2 ∧ x.2 ≤ rest.length ∧ ∀ g ∈ rest.take x.2, p g = true
  writes : ∀ {done rest x}, e done rest = some x → x.1 ≠ [] ∧ ∀ g ∈ x.1, p g = true
  sees : ∀ done rest, e (done.rtakeWhile p) (rest.takeWhile p) = e done rest

namespace Within
variable {q : String → Bool} {e e₁ e₂ : Effect} {done rest : List String}

lemma congr (h : e.Within p) {done' rest'} (hdone : done.rtakeWhile p = done'.rtakeWhile p)
    (hrest : rest.takeWhile p = rest'.takeWhile p) : e done rest = e done' rest' := by
  rw [← h.sees done rest, hdone, hrest, h.sees]

lemma eq_none (h : e.Within p) {g} (hg : p g = false) (done rest) :
    e done (g :: rest) = none := by
  cases hx : e done (g :: rest) with
  | none => rfl
  | some x =>
    obtain ⟨hpos, -, htakes⟩ := h.takes hx
    obtain ⟨n, hn⟩ := Nat.exists_eq_succ_of_ne_zero (Nat.ne_of_gt hpos)
    have := htakes g (by rw [hn]; exact mem_cons_self ..)
    rw [hg] at this
    cases this

/-- Glyphs of another kind are passed on. -/
lemma sweep_past (h : e.Within p) {past} (hpast : ∀ g ∈ past, p g = false)
    (done rest) : sweep e done (past ++ rest) = sweep e (done ++ past) rest := by
  induction past generalizing done with
  | nil => rw [nil_append, append_nil]
  | cons g past ih =>
    have hnone := h.eq_none (hpast g (.head _)) done (past ++ rest)
    rw [cons_append, sweep_step e done (cons_ne_nil _ _), step_none hnone]
    refine (ih (fun x hx => hpast x (.tail _ hx)) (done ++ [g])).trans ?_
    rw [append_assoc]
    rfl

lemma apart_symm (hpq : ∀ g, p g → q g = false) (g) (hg : q g) : p g = false := by
  cases hp : p g with
  | false => rfl
  | true =>
    rw [hpq g hp] at hg
    cases hg

lemma take_ne_nil (h : e.Within p) {x} (hx : e done rest = some x) : rest.take x.2 ≠ [] := by
  obtain ⟨hpos, hle, -⟩ := h.takes hx
  rw [Ne, take_eq_nil_iff, ← length_eq_zero_iff]
  omega

/-- What the first of two effects leaves of the rest: the glyphs of the second kind at its beginning are the same, and
the second sweeps over it as both do over the rest. The two sweeps that are compared come with what they have done. -/
structure Leaves (q : String → Bool) (e₁ e₂ : Effect) (done done₁ rest left : List String) : Prop where
  first : sweep e₁ done₁ rest = done₁ ++ left
  kept : left.takeWhile q = rest.takeWhile q
  both : sweep (e₁.or e₂) done rest = sweep e₂ done left

section Leaves
variable {done₁ left : List String} {x : List String × Nat} (h₁ : e₁.Within p) (h₂ : e₂.Within q)
  (hpq : ∀ g, p g = true → q g = false)
include h₁ h₂ hpq

/-- The first effect writes glyphs of its kind in the place of others of its kind. -/
lemma leaves_first (hx : e₁ done₁ rest = some x) (hsame : e₁ done rest = e₁ done₁ rest)
    (h : Leaves q e₁ e₂ (done ++ x.1) (done₁ ++ x.1) (rest.drop x.2) left) :
    Leaves q e₁ e₂ done done₁ rest (x.1 ++ left) := by
  obtain ⟨hpos, hle, htakes⟩ := h₁.takes hx
  obtain ⟨hne, hwrites⟩ := h₁.writes hx
  have hrest : rest ≠ [] := length_pos_iff.1 (Nat.lt_of_lt_of_le hpos hle)
  have hor : (e₁.or e₂) done rest = some x := by rw [or, hsame, hx]; rfl
  constructor
  · rw [sweep_step e₁ done₁ hrest, step_some hx hpos, h.first, append_assoc]
  · rw [takeWhile_append_of_neg hne fun g hg => hpq g (hwrites g hg), ← take_append_drop x.2 rest,
      takeWhile_append_of_neg (h₁.take_ne_nil hx) fun g hg => hpq g (htakes g hg)]
  · rw [sweep_step _ done hrest, step_some hor hpos, h.both, h₂.sweep_past fun g hg => hpq g (hwrites g hg)]

/-- The first effect passes over what the second takes up. -/
lemma leaves_second (hnone : e₁ done rest = none) (hx : e₂ done rest = some x)
    (h : Leaves q e₁ e₂ (done ++ x.1) (done₁ ++ rest.take x.2) (rest.drop x.2) left) :
    Leaves q e₁ e₂ done done₁ rest (rest.take x.2 ++ left) := by
  obtain ⟨hpos, hle, htakes⟩ := h₂.takes hx
  have hrest : rest ≠ [] := length_pos_iff.1 (Nat.lt_of_lt_of_le hpos hle)
  have hor : (e₁.or e₂) done rest = some x := by rw [or, hnone, hx]; rfl
  have hother : ∀ g ∈ rest.take x.2, p g = false := fun g hg => apart_symm hpq g (htakes g hg)
  have hkept : (rest.take x.2 ++ left).takeWhile q = rest.takeWhile q := by
    rw [takeWhile_append_of_pos htakes, h.kept, ← takeWhile_append_of_pos htakes, take_append_drop]
  have hne : rest.take x.2 ++ left ≠ [] := append_ne_nil_of_left_ne_nil (h₂.take_ne_nil hx) left
  have hlength : (rest.take x.2).length = x.2 := by rw [length_take, Nat.min_eq_left hle]
  refine ⟨?_, hkept, ?_⟩
  · have hpast := h₁.sweep_past hother done₁ (rest.drop x.2)
    rw [take_append_drop] at hpast
    rw [hpast, h.first, append_assoc]
  · have hfound : e₂ done (rest.take x.2 ++ left) = some x := (h₂.congr rfl hkept).trans hx
    rw [sweep_step _ done hrest, step_some hor hpos, h.both, sweep_step e₂ done hne, step_some hfound hpos,
      drop_left' hlength]

omit h₁ hpq in
lemma leaves_neither {g : String} {tail : List String} (hnone : e₁ done₁ (g :: tail) = none)
    (hsame : e₁ done (g :: tail) = e₁ done₁ (g :: tail)) (hx : e₂ done (g :: tail) = none)
    (h : Leaves q e₁ e₂ (done ++ [g]) (done₁ ++ [g]) tail left) :
    Leaves q e₁ e₂ done done₁ (g :: tail) (g :: left) := by
  have hor : (e₁.or e₂) done (g :: tail) = none := by rw [or, hsame, hnone, hx]; rfl
  have hkept : (g :: left).takeWhile q = (g :: tail).takeWhile q := by
    rw [takeWhile_cons, takeWhile_cons, h.kept]
  have hfound : e₂ done (g :: left) = none := (h₂.congr rfl hkept).trans hx
  refine ⟨?_, hkept, ?_⟩
  · rw [sweep_step e₁ done₁ (cons_ne_nil g tail), step_none hnone]
    exact h.first.trans (by rw [append_assoc]; rfl)
  · rw [sweep_step _ done (cons_ne_nil g tail), step_none hor, sweep_step e₂ done (cons_ne_nil g left),
      step_none hfound]
    exact h.both

lemma exists_leaves (hdone : done.rtakeWhile p = done₁.rtakeWhile p) (rest) :
    ∃ left, Leaves q e₁ e₂ done done₁ rest left := by
  -- A step takes up any number of glyphs. What has been written may differ; only its last run of `p` has to agree.
  induction hn : rest.length using Nat.strongRecOn generalizing done done₁ rest with
  | _ n ih =>
    by_cases hrest : rest = []
    · subst hrest
      exact ⟨[], by rw [sweep_nil, append_nil], rfl, by rw [sweep_nil, sweep_nil]⟩
    have hsame : e₁ done rest = e₁ done₁ rest := h₁.congr hdone rfl
    have hshorter {k} (hk : 0 < k) : (rest.drop k).length < n := by
      have := length_pos_iff.2 hrest
      rw [length_drop]
      omega
    cases hx : e₁ done₁ rest with
    | some x =>
      have hwrites := (h₁.writes hx).2
      have hrun : (done ++ x.1).rtakeWhile p = (done₁ ++ x.1).rtakeWhile p := by
        rw [rtakeWhile_append_of_pos hwrites, rtakeWhile_append_of_pos hwrites, hdone]
      obtain ⟨left, hleft⟩ := ih _ (hshorter (h₁.takes hx).1) hrun _ rfl
      exact ⟨_, leaves_first h₁ h₂ hpq hx hsame hleft⟩
    | none =>
      cases hy : e₂ done rest with
      | some y =>
        -- Whatever the second effect writes or takes up ends the run that the first one sees.
        have hwrites g hg := apart_symm hpq g ((h₂.writes hy).2 g hg)
        have htakes g hg := apart_symm hpq g ((h₂.takes hy).2.2 g hg)
        have hrun : (done ++ y.1).rtakeWhile p = (done₁ ++ rest.take y.2).rtakeWhile p := by
          rw [rtakeWhile_append_of_neg (h₂.writes hy).1 hwrites, rtakeWhile_append_of_neg (h₂.take_ne_nil hy) htakes]
        obtain ⟨left, hleft⟩ := ih _ (hshorter (h₂.takes hy).1) hrun _ rfl
        exact ⟨_, leaves_second h₁ h₂ hpq (hsame.trans hx) hy hleft⟩
      | none =>
        obtain ⟨g, tail, rfl⟩ := exists_cons_of_ne_nil hrest
        have hrun : (done ++ [g]).rtakeWhile p = (done₁ ++ [g]).rtakeWhile p := by
          rw [rtakeWhile_concat, rtakeWhile_concat, hdone]
        obtain ⟨left, hleft⟩ := ih _ (hshorter Nat.one_pos) hrun _ rfl
        exact ⟨_, leaves_neither h₂ hx hsame hy hleft⟩

end Leaves

/-- **One sweep with two effects that have no glyph in common is two sweeps.** -/
lemma sweep_or (h₁ : e₁.Within p) (h₂ : e₂.Within q) (hpq : ∀ g, p g → q g = false)
    (rest) : sweep (e₁.or e₂) [] rest = sweep e₂ [] (sweep e₁ [] rest) := by
  obtain ⟨left, hleft⟩ := exists_leaves h₁ h₂ hpq rfl rest
  rw [hleft.both, hleft.first, nil_append]

end Within
end Effect

/-! ### Rules within glyphs -/

namespace Rewrite

def Names (p : String → Bool) (w : Rewrite) : Prop :=
  ∀ slot ∈ w.before ++ w.input ++ w.after ++ w.output, ∀ g ∈ slot, p g = true

lemma forall_of_fills (h : ∀ slot ∈ slots, ∀ g ∈ slot, p g)
    (hfills : fills glyphs slots) : ∀ g ∈ glyphs, p g = true := by
  induction glyphs generalizing slots with
  | nil => exact forall_mem_nil _
  | cons g glyphs ih =>
    cases slots with
    | nil => cases hfills
    | cons s slots =>
      rw [fills, Bool.and_eq_true, contains_iff_mem] at hfills
      obtain ⟨hs, hslots⟩ := forall_mem_cons.1 h
      exact forall_mem_cons.2 ⟨hs g hfills.1, ih hslots hfills.2⟩

section Names
variable {w : Rewrite} (h : w.Names p)
include h

lemma Names.before : ∀ slot ∈ w.before, ∀ g ∈ slot, p g := fun slot hs => h slot (by simp [hs])

lemma Names.input : ∀ slot ∈ w.input, ∀ g ∈ slot, p g := fun slot hs => h slot (by simp [hs])

lemma Names.after : ∀ slot ∈ w.after, ∀ g ∈ slot, p g := fun slot hs => h slot (by simp [hs])

lemma Names.output : ∀ slot ∈ w.output, ∀ g ∈ slot, p g := fun slot hs => h slot (by simp [hs])

/-- Whether the rule fits can be told from the runs of its glyphs. -/
lemma Names.fitsBetween_runs (done rest) :
    w.fitsBetween (done.rtakeWhile p) (rest.takeWhile p) = w.fitsBetween done rest := by
  rw [Bool.eq_iff_iff]
  constructor
  · intro hfits
    have := fitsBetween_append hfits (done.rdropWhile p) (rest.dropWhile p)
    rwa [rdropWhile_append_rtakeWhile, takeWhile_append_dropWhile] at this
  · intro hfits
    obtain ⟨hinput, hq, hb, ha⟩ := fitsBetween_iff.1 hfits
    have hrest : rest = rest.take w.input.length ++ (rest.drop w.input.length).take w.after.length ++
        (rest.drop w.input.length).drop w.after.length := by
      rw [append_assoc, take_append_drop, take_append_drop]
    rw [← take_append_drop (done.length - w.before.length) done, hrest,
      rtakeWhile_append_of_pos (forall_of_fills h.before hb), takeWhile_append_of_pos]
    · exact fitsBetween_append (fitsBetween_window hinput hb hq ha) _ _
    · intro g hg
      rcases mem_append.1 hg with hg | hg
      · exact forall_of_fills h.input hq g hg
      · exact forall_of_fills h.after ha g hg

/-- A rule with a glyph in every slot writes its own glyphs. -/
lemma Names.written (hshape : SlotShape w.input w.output) (houtput : ∀ slot ∈ w.output, slot ≠ [])
    {matched} (hmatched : fills matched w.input) : ∀ g ∈ w.written matched, p g = true := by
  have heads : ∀ g ∈ w.output.map (·.headD ""), p g = true := by
    intro g hg
    obtain ⟨slot, hslot, rfl⟩ := mem_map.1 hg
    obtain ⟨x, slot', rfl⟩ := exists_cons_of_ne_nil (houtput slot hslot)
    exact h.output _ hslot x (.head _)
  have hnamed := h.output
  obtain ⟨before, input, after, output⟩ := w
  cases hshape with
  | @single i o hlength =>
    obtain ⟨g, rfl⟩ := length_eq_one_iff.1 (fills_length hmatched)
    have hg : g ∈ i := by simpa [fills] using hmatched
    refine forall_mem_singleton.2 ?_
    exact hnamed o (mem_singleton_self o) _ (counterpart_mem hg hlength)
  | @ligature _ o hlength =>
    obtain ⟨i, j, rest, rfl⟩ := exists_cons_cons hlength
    exact heads
  | @multiple i _ hlength =>
    obtain ⟨o, o', rest, rfl⟩ := exists_cons_cons hlength
    exact heads

end Names

lemma effect_within {ws : List Rewrite} (hnames : ∀ w ∈ ws, w.Names p)
    (hshape : ∀ w ∈ ws, SlotShape w.input w.output) (houtput : ∀ w ∈ ws, ∀ slot ∈ w.output, slot ≠ []) :
    (effect ws).Within p where
  takes {done rest x} hx := by
    obtain ⟨w, hw, hfits, rfl⟩ := effect_eq_some hx
    obtain ⟨hinput, hq, -⟩ := fitsBetween_iff.1 hfits
    have hlength := fills_length hq
    rw [length_take] at hlength
    exact ⟨length_pos_iff.2 hinput, by omega, forall_of_fills (hnames w hw).input hq⟩
  writes {done rest x} hx := by
    obtain ⟨w, hw, hfits, rfl⟩ := effect_eq_some hx
    have hmatched := (fitsBetween_iff.1 hfits).2.1
    exact ⟨written_ne_nil (hshape w hw) hmatched, (hnames w hw).written (hshape w hw) (houtput w hw) hmatched⟩
  sees done rest := by
    unfold effect
    rw [List.find?_congr fun w hw => (hnames w hw).fitsBetween_runs done rest]
    cases hfound : ws.find? (·.fitsBetween done rest) with
    | none => rfl
    | some w =>
      obtain ⟨-, hq, -⟩ := fitsBetween_iff.1 (fits_of_find? hfound)
      have hrun := forall_of_fills (hnames w (mem_of_find?_eq_some hfound)).input hq
      have htake : (rest.takeWhile p).take w.input.length = rest.take w.input.length := by
        conv_lhs => rw [← take_append_drop w.input.length rest, takeWhile_append_of_pos hrun]
        exact take_left' (by rw [fills_length hq])
      rw [Option.map_some, Option.map_some, htake]

lemma effect_append (ws ws') : effect (ws ++ ws') = (effect ws).or (effect ws') := by
  funext done rest
  unfold effect Effect.or
  rw [List.find?_append, Option.map_or]

end Rewrite

/-! ### Routines -/

lemma names_of_involved (h : IsRewriting font r) (hglyphs : r.involved = .ok glyphs)
    (hp : ∀ g ∈ glyphs, p g) : (ofRule r).Names p := by
  obtain ⟨sub, hsub, hi, ho, hb, ha, -⟩ := h.sides
  unfold Rule.involved at hglyphs
  simp only [hsub, hi, ho, hb, ha, Except.ok.injEq] at hglyphs
  intro slot hslot g hg
  refine hp g (hglyphs ▸ Text.mem_distinct.2 ?_)
  simp only [mem_append, mem_flatten] at hslot ⊢
  rcases hslot with ((hslot | hslot) | hslot) | hslot
  · exact .inl (.inr ⟨slot, hslot, hg⟩)
  · exact .inl (.inl (.inl ⟨slot, hslot, hg⟩))
  · exact .inr ⟨slot, hslot, hg⟩
  · exact .inl (.inl (.inr ⟨slot, hslot, hg⟩))

lemma involved_eq_ok (h : involved b i = .ok glyphs) :
    b.rulesOf i ≠ [] ∧ ∀ r ∈ b.rulesOf i, ∃ own, r.involved = .ok own ∧ ∀ g ∈ own, g ∈ glyphs := by
  unfold involved at h
  split at h
  · cases h
  · next hne =>
    obtain ⟨all, hall, h⟩ := bind_eq_ok.1 h
    cases h
    refine ⟨hne, fun r hr => ?_⟩
    obtain ⟨own, hown, heq⟩ := except_mem_mapM hall hr
    exact ⟨own, heq, fun g hg => mem_flatten.2 ⟨own, hown, hg⟩⟩

lemma effect_involved (hrules : ∀ r ∈ b.rulesOf i, IsRewriting font r)
    (hglyphs : involved b i = .ok glyphs) :
    (effect ((b.rulesOf i).map ofRule)).Within glyphs.contains := by
  refine effect_within ?_ ?_ ?_ <;> rw [forall_mem_map]
  · intro r hr
    obtain ⟨own, hown, hsub⟩ := (involved_eq_ok hglyphs).2 r hr
    exact names_of_involved (hrules r hr) hown fun g hg => contains_iff_mem.2 (hsub g hg)
  · exact fun r hr => (hrules r hr).shape
  · exact fun r hr slot hslot => ((hrules r hr).output slot hslot).1

/-! ### Merging -/

structure SameRewriting (font : Font) (b b' : Book) : Prop where
  routines : b'.routines = b.routines
  rules : ∀ i, IsRewriting font (b.rule i) →
    IsRewriting font (b'.rule i) ∧ ofRule (b'.rule i) = ofRule (b.rule i)

instance (font : Font) : Std.Refl (SameRewriting font) := ⟨fun _ => ⟨rfl, fun _ h => ⟨h, rfl⟩⟩⟩

instance (font : Font) : Trans (SameRewriting font) (SameRewriting font) (SameRewriting font) where
  trans h k := by
    refine ⟨k.routines.trans h.routines, fun i hi => ?_⟩
    obtain ⟨hi', heq⟩ := h.rules i hi
    obtain ⟨hi'', heq'⟩ := k.rules i hi'
    exact ⟨hi'', heq'.trans heq⟩

lemma IsRewriting.withCalls (h : IsRewriting font r) {calls} (hcalls : calls.anyGiven = false) :
    IsRewriting font (r.withCalls calls) ∧ ofRule (r.withCalls calls) = ofRule r := by
  obtain ⟨sub, hsub, hreversal, -⟩ := h.body
  obtain ⟨body, flags, languages, address, group, unwritable⟩ := r
  obtain rfl := hsub
  exact ⟨⟨⟨_, rfl, hreversal, hcalls⟩, h.shape, h.before, h.input, h.after, h.output, h.flags, h.writable⟩, rfl⟩

/-- To call something else where something is called leaves rules that rewrite alone. -/
lemma setCalls_sameRewriting (font) (b) (user) (f) :
    SameRewriting font b (b.setCalls user ((((b.rule user).calls).getD []).map (Option.map f))) := by
  by_cases huser : user < b.rules.size
  · have called := Called.of_setCalls huser ((((b.rule user).calls).getD []).map (Option.map f))
    refine ⟨called.routines, fun i hi => ?_⟩
    rw [called.rule]
    split
    · next hshares =>
      obtain ⟨sub, hsub, -, hcalls⟩ := hi.body
      rcases shares_iff.1 hshares with rfl | ⟨g, -, hgroup⟩
      · have hgiven : (b.rule user).calls = some sub.calls := by simp only [Rule.calls, hsub]
        rw [hgiven, Option.getD_some]
        refine hi.withCalls ?_
        rw [← hcalls, Calls.anyGiven, any_map]
        exact congrArg sub.calls.any (funext fun slot => Option.isSome_map)
      · obtain ⟨c, hc⟩ := Rule.chaining_of_group? hgroup
        rw [hsub] at hc
        cases hc
    · exact ⟨hi, rfl⟩
  · rw [setCalls_of_size_le (Nat.le_of_not_lt huser)]
    exact Std.Refl.refl b

lemma mergeRoutines_on (hl : l < b.routines.size)
    (hcontent : (b.routine l).content = .rules ids) (r) (font) :
    ∃ b', (mergeRoutines l r).on b = (.ok (), b') ∧ (b'.routine l).flags = (b.routine l).flags ∧
      b'.ruleIds l = b.ruleIds l ++ b.ruleIds r ∧ ∀ i, IsRewriting font (b.rule i) →
        IsRewriting font (b'.rule i) ∧ ofRule (b'.rule i) = ofRule (b.rule i) := by
  obtain ⟨b', hb'⟩ := on_forM_ok (f := callFirst l r) (fun user b => ⟨_, on_modify _ b⟩)
    (mergedUsers (b.routine l) (b.routine r)) (b.fuse l r)
  have same : SameRewriting font (b.fuse l r) b' :=
    Keeps.of_on (.forM _ fun user _ => .modify fun b => setCalls_sameRewriting font b user _) hb'
  have hroutine := (routine_of_eq same.routines l).trans (routine_fuse hl r)
  refine ⟨b', mergeRoutines_on_fuse l r hb', ?_, ?_, same.rules⟩
  · rw [hroutine, Routine.withRules, hcontent]
  · refine ruleIds_rules ?_
    rw [hroutine]
    exact content_withRules hcontent _

/-! ### Shaping with merged routines -/

lemma Shape.Stands.poised {s t} (h : Stands s t glyphs []) (id)
    (hflags : (s.book.routine id).flags.counts = false)
    (hclear : ∀ f, f ≠ "" → feature = some f → ∀ i ∈ s.buffer.items, i.isMasked f = false) :
    Poised feature s.font (s.book.rulesOf id) glyphs id t where
  font := h.rules.font
  flags := by rw [h.rules.routine_eq, hflags]
  rules := h.rules.rulesOf_eq id
  glyphs := by simpa using h.spells
  clear f hne hf := by
    rcases hf with hf | hf
    · exact h.masks.unmasked (hclear f hne hf)
    · exact h.clear f hf hne

/-- **Routines without common glyphs shape as one.** -/
theorem mergeRoutines_shapes (classes : Classes) {stage : Option Stage} {feature : Option String}
    {l r : RoutineId} {ids : List RuleId} {s : Session} {glyphs left right : List String}
    (hstage : stage ≠ some .pos) (hcontent : (s.book.routine l).content = .rules ids)
    (hflags : (s.book.routine l).flags.counts = false) (hflags' : (s.book.routine r).flags.counts = false)
    (hl : ∀ x ∈ s.book.rulesOf l, IsRewriting s.font x) (hr : ∀ x ∈ s.book.rulesOf r, IsRewriting s.font x)
    (hleft : involved s.book l = .ok left) (hright : involved s.book r = .ok right)
    (hdisjoint : disjoint left right = true) (hglyphs : s.buffer.items.map (·.glyph) = glyphs.map some)
    (hclear : ∀ f, f ≠ "" → feature = some f ∨ s.buffer.feature = some f → ∀ i ∈ s.buffer.items, i.isMasked f = false) :
    ∃ b t u v, (mergeRoutines l r).on s.book = (.ok (), b) ∧
      b.ruleIds l = s.book.ruleIds l ++ s.book.ruleIds r ∧
      (applyRoutine classes stage feature l).on { s with book := b } = (.ok (), t) ∧
      (applyRoutine classes stage feature l).on s = (.ok (), u) ∧
      (applyRoutine classes stage feature r).on u = (.ok (), v) ∧
      t.buffer.items.map (·.glyph) = v.buffer.items.map (·.glyph) := by
  have hsize : l < s.book.routines.size := by
    refine Book.lt_of_ruleIds fun hnil => (involved_eq_ok hleft).1 ?_
    rw [Book.rulesOf, hnil, List.map_nil]
  obtain ⟨b, hb, hbflags, hids, hrules⟩ := mergeRoutines_on hsize hcontent r s.font
  have hall : ∀ i ∈ b.ruleIds l, IsRewriting s.font (s.book.rule i) := by
    rw [hids, List.forall_mem_append]
    exact ⟨fun i hi => hl _ (List.mem_map_of_mem hi), fun i hi => hr _ (List.mem_map_of_mem hi)⟩
  have hmerged : (b.rulesOf l).map ofRule =
      (s.book.rulesOf l).map ofRule ++ (s.book.rulesOf r).map ofRule := by
    rw [← List.map_append, Book.rulesOf, Book.rulesOf, Book.rulesOf, ← List.map_append, ← hids, List.map_map,
      List.map_map]
    exact List.map_congr_left fun i hi => (hrules i (hall i hi)).2
  -- One sweep with all rules, and a sweep with those of each routine.
  have poised : Shape.Poised feature s.font (b.rulesOf l) glyphs l { s with book := b } :=
    ⟨rfl, hbflags ▸ hflags, rfl, hglyphs, hclear⟩
  have first : Shape.Poised feature s.font (s.book.rulesOf l) glyphs l s := ⟨rfl, hflags, rfl, hglyphs, hclear⟩
  obtain ⟨t, ht, hone⟩ := poised.applyRoutine (List.forall_mem_map.2 fun i hi => (hrules i (hall i hi)).1) classes
    hstage
  obtain ⟨u, hu, hstands⟩ := first.stands hl classes hstage
  obtain ⟨v, hv, htwo⟩ := (hstands.poised r hflags' fun f hne hf => hclear f hne (.inl hf)).applyRoutine hr classes
    hstage
  refine ⟨b, t, u, v, hb, hids, ht, hu, hv, ?_⟩
  have hapart : ∀ g, left.contains g = true → right.contains g = false := by
    simpa [disjoint] using hdisjoint
  rw [hone, htwo, hmerged, effect_append,
    (effect_involved hl hleft).sweep_or (effect_involved hr hright) hapart]

/-- If the first rule of a routine takes up all there is, no other is tried. -/
lemma applyRoutine_whole (classes) {rule} {s} {rules}
    (poised : Poised none font rules glyphs id s) (hids : s.book.ruleIds id = rule :: ids)
    (hrule : IsRewriting s.font (s.book.rule rule))
    (hfits : (ofRule (s.book.rule rule)).fitsBetween [] glyphs)
    (hwhole : (ofRule (s.book.rule rule)).input.length = glyphs.length) :
    ∃ t, (applyRoutine classes none none id).on s = (.ok (), t) ∧
      t.buffer.items.map (·.glyph) = ((ofRule (s.book.rule rule)).written glyphs).map some := by
  obtain ⟨u, hu, hstands⟩ := enter_clear poised.flags poised.glyphs poised.clear
  obtain ⟨sub, hsub, -⟩ := hrule.sides
  obtain ⟨v, hv, hflags, htry⟩ := tryAt_reads classes none id (s.book.routine id) _ ids
    (skips_substitution hsub none_ne_pos _) hrule.reads hrule.flags (fun u _ => write_text hrule.text u) hstands
  obtain ⟨moved, t, ht, hleft, hmoved⟩ := applyAt_rewriting classes id rule hrule hv hflags hfits
  rw [if_pos hfits, ht] at htry
  simp only [Rewrite.next, hwhole, take_length, drop_length] at hleft hmoved
  have hne : glyphs ≠ [] := by
    rw [← length_pos_iff, ← hwhole]
    exact length_pos_iff.2 hrule.shape.ne_nil.1
  refine ⟨t, applyRoutine_on hu ?_, hleft.all⟩
  rw [hids]
  refine (loop_next (pass_moves hstands hne htry hmoved)).trans ?_
  exact loop_stop (pass_stop classes none id _ _ hleft (Nat.le_refl _))

section Sample

def twoRoutines (l r : List Substitution) : Book :=
  { routines := #[{ content := .rules (List.range l.length) },
      { content := .rules ((List.range r.length).map (l.length + ·)) }]
    rules := ((l ++ r).map fun s => Rule.ofBody (.substitution s)).toArray }

def twoSession (l r : List Substitution) (glyphs : List String) : Session :=
  { book := twoRoutines l r
    font := sampleFont
    characters := {}
    buffer := { items := glyphs.map fun g => { glyph := some g } } }

lemma twoSession_glyphs (l r) (glyphs) :
    (twoSession l r glyphs).buffer.items.map (·.glyph) = glyphs.map some := by
  simp [twoSession]

lemma twoSession_clear (l r) (glyphs) :
    ∀ f, f ≠ "" → none = some f ∨ (twoSession l r glyphs).buffer.feature = some f →
      ∀ i ∈ (twoSession l r glyphs).buffer.items, i.isMasked f = false := by
  rintro f - (hf | hf)
  all_goals cases hf

/-- A ligature, and what it becomes at the end of itself. -/
def ligating : List Substitution :=
  [{ input := some [["f"], ["i"]], replacement := some [["f_i"]] },
   { input := some [["i"]], replacement := some [["f"], ["i"]], before := [["f_i"]] }]

/-- A class for a class before a letter, and another letter for that letter. -/
def swapping : List Substitution :=
  [{ input := some [["a", "b"]], replacement := some [["b", "a"]], after := [["c"]] },
   { input := some [["c"]], replacement := some [["x"]] }]

theorem mergeRoutines_shapes_interleaved :
    ∃ b t u v, (mergeRoutines 0 1).on (twoRoutines ligating swapping) = (.ok (), b) ∧
      b.ruleIds 0 = [0, 1, 2, 3] ∧
      (applyRoutine [] none none 0).on
        { twoSession ligating swapping ["a", "c", "f", "i", "i", "b", "c"] with book := b } = (.ok (), t) ∧
      (applyRoutine [] none none 0).on
        (twoSession ligating swapping ["a", "c", "f", "i", "i", "b", "c"]) = (.ok (), u) ∧
      (applyRoutine [] none none 1).on u = (.ok (), v) ∧
      t.buffer.items.map (·.glyph) = v.buffer.items.map (·.glyph) := by
  have hleft : involved (twoRoutines ligating swapping) 0 = .ok ["f", "i", "f_i", "i", "f", "f_i"] := by
    decide +kernel
  have hright : involved (twoRoutines ligating swapping) 1 = .ok ["a", "b", "c", "c", "x"] := by
    decide +kernel
  have hids : [0, 1, 2, 3] =
      (twoRoutines ligating swapping).ruleIds 0 ++ (twoRoutines ligating swapping).ruleIds 1 := by
    decide
  exact mergeRoutines_shapes [] (s := twoSession ligating swapping ["a", "c", "f", "i", "i", "b", "c"]) none_ne_pos
    rfl rfl rfl (by decide +kernel) (by decide +kernel) hleft hright (by decide) (twoSession_glyphs _ _ _)
    (twoSession_clear _ _ _)

/-- A substitution that calls a routine, even one without rules that fit. -/
def callingLetter : Substitution :=
  { input := some [["c"]], replacement := some [["x"]], calls := [some [.ref ⟨some (some "none"), some 1⟩]] }

def plainLetter : Substitution := { input := some [["a"]], replacement := some [["b"]] }

/-- **A substitution with calls is refused where it is tried**, and in the merged routine it is not tried: one
before it fits. -/
theorem mergeRoutines_calls : disjoint ["a", "b"] ["c", "x"] = true ∧
    involved (twoRoutines [plainLetter] [callingLetter]) 0 = .ok ["a", "b"] ∧
    involved (twoRoutines [plainLetter] [callingLetter]) 1 = .ok ["c", "x"] ∧
    ∃ b t u, (mergeRoutines 0 1).on (twoRoutines [plainLetter] [callingLetter]) = (.ok (), b) ∧
      (applyRoutine [] none none 0).on { twoSession [plainLetter] [callingLetter] ["a"] with book := b } =
        (.ok (), t) ∧
      t.buffer.items.map (·.glyph) = [some "b"] ∧
      (applyRoutine [] none none 0).on (twoSession [plainLetter] [callingLetter] ["a"]) = (.ok (), u) ∧
      ((applyRoutine [] none none 1).on u).1 = .error (.unsupported .useChain) := by
  have poised : Shape.Poised none sampleFont [Rule.ofBody (.substitution plainLetter)] ["a"] 0
      (twoSession [plainLetter] [callingLetter] ["a"]) :=
    ⟨rfl, rfl, rfl, twoSession_glyphs [plainLetter] [callingLetter] ["a"], twoSession_clear _ _ _⟩
  have rewriting : ∀ r ∈ [Rule.ofBody (.substitution plainLetter)], IsRewriting sampleFont r := by
    decide
  obtain ⟨u, hu, hstands⟩ := poised.stands rewriting [] none_ne_pos
  obtain ⟨b, hb, hflags, hids, hrules⟩ := mergeRoutines_on (b := twoRoutines [plainLetter] [callingLetter]) (l := 0)
    (by decide) rfl 1 sampleFont
  have hrule := hrules 0 (rewriting _ (List.mem_singleton_self _))
  have merged : Shape.Poised none sampleFont (b.rulesOf 0) ["a"] 0
      { twoSession [plainLetter] [callingLetter] ["a"] with book := b } :=
    ⟨rfl, hflags ▸ rfl, rfl, twoSession_glyphs [plainLetter] [callingLetter] ["a"],
      twoSession_clear [plainLetter] [callingLetter] ["a"]⟩
  have hfirst : ofRule (b.rule 0) = ofRule (.ofBody (.substitution plainLetter)) := hrule.2
  obtain ⟨t, ht, hglyphs⟩ := applyRoutine_whole [] merged hids hrule.1 (by rw [hfirst]; decide) (by rw [hfirst]; rfl)
  refine ⟨by decide, by decide +kernel, by decide +kernel, b, t, u, hb, ht, ?_, hu, ?_⟩
  · rw [hglyphs]
    rw [hfirst]
    rfl
  · have second : Shape.Poised none sampleFont [Rule.ofBody (.substitution callingLetter)] ["b"] 1 u := by
      rw [sweep_whole (List.cons_ne_nil "a" []) (rfl)] at hstands
      exact hstands.poised 1 rfl fun _ _ hf => absurd hf (Option.some_ne_none _).symm
    have hcalling : u.book.rule 1 = .ofBody (.substitution callingLetter) := hstands.rules.rule_eq 1
    have hids' : u.book.ruleIds 1 = [1] := hstands.rules.ruleIds_eq 1
    refine applyRoutine_refused [] second.flags second.glyphs second.clear hids' ?_ ?_ (List.cons_ne_nil _ _)
    · rw [hcalling]
      rfl
    · rw [hcalling]
      exact fun _ => rfl

end Sample

end GlyphRules.Shaping
