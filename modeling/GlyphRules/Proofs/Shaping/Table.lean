import Mathlib.Order.Nat
import GlyphRules.Proofs.Shaping.Effect

/-! Tables, and other effects on the beginning of the rest.

A table puts something for the longest sequence that the rest begins with (`lookUp`). It depends on
that beginning alone (`Effect.Prefixed`), as rules without context do. Two such effects take the
same steps everywhere if they do on the sequences that either takes up (`Effect.Prefixed.step_eq`).
Some steps can be read off a sweep: the one that a single glyph is left to (`step_one`), and the one
that leaves a single glyph (`Effect.Writes.step_of_sweep`). -/
namespace GlyphRules.Shaping

open List Option

variable {q rest : List String} {table : List String → Option (List String)}

/-! ### Tables -/

/-- The longest beginning of at most so many glyphs that the table has, and its length. -/
def longest (table : List String → Option (List String)) (rest : List String) : Nat → Option (List String × Nat)
  | 0 => none
  | n + 1 =>
    match table (rest.take (n + 1)) with
    | some written => some (written, n + 1)
    | none => longest table rest n

lemma longest_eq_none : longest table rest n = none ↔ ∀ k, 0 < k → k ≤ n → table (rest.take k) = none := by
  induction n with
  | zero => exact iff_of_true rfl fun k hk hk' => absurd hk (Nat.not_lt.2 hk')
  | succ n ih =>
    unfold longest
    cases htable : table (rest.take (n + 1)) with
    | some written =>
      refine iff_of_false nofun fun h => ?_
      rw [h (n + 1) (Nat.succ_pos n) le_rfl] at htable
      cases htable
    | none =>
      refine ih.trans ⟨fun h k hk hk' => ?_, fun h k hk hk' => h k hk (Nat.le_succ_of_le hk')⟩
      rcases Nat.le_succ_iff.1 hk' with hk' | rfl
      · exact h k hk hk'
      · exact htable

lemma longest_eq_some {x} : longest table rest n = some x ↔
      0 < x.2 ∧ x.2 ≤ n ∧ table (rest.take x.2) = some x.1 ∧ ∀ k, x.2 < k → k ≤ n → table (rest.take k) = none := by
  induction n with
  | zero => exact iff_of_false nofun fun h => absurd h.1 (Nat.not_lt.2 h.2.1)
  | succ n ih =>
    unfold longest
    cases htable : table (rest.take (n + 1)) with
    | some written =>
      constructor
      · rintro ⟨⟩
        exact ⟨Nat.succ_pos n, le_rfl, htable, fun k hk hk' => absurd hk (Nat.not_lt.2 hk')⟩
      · rintro ⟨-, hle, hx, hlonger⟩
        obtain heq | hlt := hle.eq_or_lt
        · rw [heq, htable] at hx
          rw [Option.some.inj hx, ← heq]
        · rw [hlonger (n + 1) hlt le_rfl] at htable
          cases htable
    | none =>
      refine ih.trans ⟨fun ⟨hpos, hle, hx, hlonger⟩ => ⟨hpos, Nat.le_succ_of_le hle, hx, fun k hk hk' => ?_⟩,
        fun ⟨hpos, hle, hx, hlonger⟩ => ⟨hpos, ?_, hx, fun k hk hk' => hlonger k hk (Nat.le_succ_of_le hk')⟩⟩
      · rcases Nat.le_succ_iff.1 hk' with hk' | rfl
        · exact hlonger k hk hk'
        · exact htable
      · refine Nat.le_of_lt_succ (lt_of_le_of_ne hle fun heq => ?_)
        rw [heq, htable] at hx
        cases hx

def lookUp (table : List String → Option (List String)) : Effect := fun _ rest => longest table rest rest.length

/-! ### Effects on beginnings -/

/-- An effect that depends on the beginning of the rest alone, and on no more of it than it takes up. -/
structure Effect.Prefixed (e : Effect) : Prop where
  alone : ∀ done rest, e done rest = e [] rest
  bound : ∀ {rest x}, e [] rest = some x → 0 < x.2 ∧ x.2 ≤ rest.length
  within : ∀ {rest x}, e [] rest = some x → ∀ {m}, x.2 ≤ m → e [] (rest.take m) = some x
  beyond : ∀ {rest}, e [] rest = none → ∀ m, e [] (rest.take m) = none

lemma lookUp_prefixed (table) : (lookUp table).Prefixed where
  alone _ _ := rfl
  bound h := ⟨(longest_eq_some.1 h).1, (longest_eq_some.1 h).2.1⟩
  within {rest x} h {m} hm := by
    obtain ⟨hpos, hle, hx, hlonger⟩ := longest_eq_some.1 h
    refine longest_eq_some.2 ⟨hpos, by rw [length_take]; omega, ?_, fun k hk hk' => ?_⟩
    · rw [take_take, Nat.min_eq_left hm, hx]
    · rw [length_take] at hk'
      rw [take_take, Nat.min_eq_left (by omega), hlonger k hk (by omega)]
  beyond {rest} h m := by
    refine longest_eq_none.2 fun k hk hk' => ?_
    rw [length_take] at hk'
    rw [take_take, Nat.min_eq_left (by omega)]
    exact longest_eq_none.1 h k hk (by omega)

namespace Effect.Prefixed
variable {e e' : Effect} {rest : List String} {x y : List String × Nat}

lemma step_some (h : e.Prefixed) (hx : e [] rest = some x) (done) :
    e.step done rest = (done ++ x.1, rest.drop x.2) :=
  Effect.step_some ((h.alone done rest).trans hx) (h.bound hx).1

lemma step_none (h : e.Prefixed) (hx : e [] rest = none) (done) :
    e.step done rest = (done ++ rest.take 1, rest.drop 1) :=
  Effect.step_none ((h.alone done rest).trans hx)

/-- Where one of the two does nothing, the other puts a glyph for itself. -/
lemma step_eq_of_none (h : e.Prefixed) (h' : e'.Prefixed) (hx : e [] rest = some x) (hnone : e' [] rest = none)
    (hsame : e.step [] (rest.take x.2) = e'.step [] (rest.take x.2)) (done) :
    e.step done rest = e'.step done rest := by
  rw [h.step_some (h.within hx le_rfl), h'.step_none (h'.beyond hnone x.2), Prod.mk.injEq, drop_take,
    Nat.sub_self, take_zero, take_take, nil_append, nil_append] at hsame
  obtain ⟨hpos, hle⟩ := h.bound hx
  have hshort : x.2 = 1 := by
    have := congrArg List.length hsame.2
    rw [length_nil, length_drop, length_take] at this
    omega
  rw [h.step_some hx, h'.step_none hnone, hsame.1, hshort, Nat.min_self]

/-- Both take up the same, as the shorter beginning would leave glyphs of the longer one. -/
lemma eq_of_le (h : e.Prefixed) (h' : e'.Prefixed) (hx : e [] rest = some x) (hy : e' [] rest = some y)
    (hle : x.2 ≤ y.2) (hsame : e.step [] (rest.take y.2) = e'.step [] (rest.take y.2)) : x = y := by
  rw [h.step_some (h.within hx hle), h'.step_some (h'.within hy le_rfl), Prod.mk.injEq, drop_take,
    drop_take, Nat.sub_self, take_zero, nil_append] at hsame
  obtain ⟨-, hylen⟩ := h'.bound hy
  refine Prod.ext hsame.1 (Nat.le_antisymm hle ?_)
  have := congrArg List.length hsame.2
  rw [length_nil, length_take, length_drop] at this
  omega

/-- Two effects on beginnings agree everywhere if they agree on the sequences that either takes up. -/
lemma step_eq (h : e.Prefixed) (h' : e'.Prefixed) (Window : List String → Prop)
    (hwindow : ∀ rest x, e [] rest = some x → Window (rest.take x.2))
    (hwindow' : ∀ rest x, e' [] rest = some x → Window (rest.take x.2))
    (hsame : ∀ q, Window q → e.step [] q = e'.step [] q) (done rest) :
    e.step done rest = e'.step done rest := by
  cases hx : e [] rest with
  | none =>
    cases hy : e' [] rest with
    | none => rw [h.step_none hx, h'.step_none hy]
    | some y => exact (h'.step_eq_of_none h hy hx (hsame _ (hwindow' rest y hy)).symm done).symm
  | some x =>
    cases hy : e' [] rest with
    | none => exact h.step_eq_of_none h' hx hy (hsame _ (hwindow rest x hx)) done
    | some y =>
      have heq : x = y := by
        rcases Nat.le_total x.2 y.2 with hle | hle
        · exact h.eq_of_le h' hx hy hle (hsame _ (hwindow' rest y hy))
        · exact (h'.eq_of_le h hy hx hle (hsame _ (hwindow rest x hx)).symm).symm
      rw [h.step_some hx, h'.step_some hy, heq]

end Effect.Prefixed

/-! ### Steps read off sweeps -/

lemma step_one (e) (g) : e.step [] [g] = (sweep e [] [g], []) := by
  have hnil : (e.step [] [g]).2 = [] := by
    have := e.length_step_lt [] (cons_ne_nil g [])
    exact length_eq_zero_iff.1 (Nat.lt_one_iff.1 this)
  refine Prod.ext ?_ hnil
  rw [sweep_step e [] (cons_ne_nil g []), hnil, sweep_nil]

def Effect.Writes (e : Effect) : Prop := ∀ done rest x, e done rest = some x → x.1 ≠ []

lemma Effect.Writes.length_step {e : Effect} (h : e.Writes) (done)
    (hrest : rest ≠ []) : done.length < (e.step done rest).1.length := by
  unfold step
  split
  · next x hx =>
    have hpos := length_pos_iff.2 (h done rest _ hx)
    rw [length_append]
    exact Nat.lt_add_of_pos_right hpos
  · have hpos := length_pos_iff.2 hrest
    rw [length_append, length_take]
    omega

/-- If one glyph is left of many, it was written at once. -/
lemma Effect.Writes.step_of_sweep (h : e.Writes) (hrest : rest ≠ []) {g}
    (hsweep : sweep e [] rest = [g]) : e.step [] rest = ([g], []) := by
  rw [sweep_step e [] hrest] at hsweep
  have hnil : (e.step [] rest).2 = [] := by
    by_contra hne
    have hfirst := h.length_step [] hrest
    have hsecond := h.length_step (e.step [] rest).1 hne
    have hall := (prefix_sweep e (e.step (e.step [] rest).1 (e.step [] rest).2).1
      (e.step (e.step [] rest).1 (e.step [] rest).2).2).length_le
    rw [← sweep_step e _ hne, hsweep, length_singleton] at hall
    omega
  rw [hnil, sweep_nil] at hsweep
  exact Prod.ext hsweep hnil

/-- An effect that writes one glyph wherever it takes up several. -/
def Effect.Ligates (e : Effect) : Prop := ∀ done rest x, e done rest = some x → 2 ≤ x.2 → ∃ g, x.1 = [g]

/-- What is written at the beginning of the rest, and for how many glyphs; the first glyph for itself if there
is nothing to do. -/
def Effect.move (e : Effect) (rest : List String) : List String × Nat := (e [] rest).getD (rest.take 1, 1)

namespace Effect.Prefixed
variable {e e' : Effect} {rest : List String}

lemma step_eq_move (h : e.Prefixed) (rest) :
    e.step [] rest = ((e.move rest).1, rest.drop (e.move rest).2) := by
  unfold move
  cases hx : e [] rest with
  | none => exact h.step_none hx []
  | some x => exact h.step_some hx []

lemma move_le (h : e.Prefixed) (hrest : rest ≠ []) : (e.move rest).2 ≤ rest.length := by
  unfold move
  cases hx : e [] rest with
  | none => exact length_pos_iff.2 hrest
  | some x => exact (h.bound hx).2

lemma move_take (h : e.Prefixed) {m} (hm : (e.move rest).2 ≤ m) : e.move (rest.take m) = e.move rest := by
  unfold move at hm ⊢
  cases hx : e [] rest with
  | none =>
    rw [hx, getD_none] at hm
    rw [h.beyond hx, getD_none, getD_none, take_take, Nat.min_eq_left hm]
  | some x =>
    rw [hx] at hm
    rw [h.within hx hm, getD_some, getD_some]

/-- If all of several glyphs are taken up, one is written for them. -/
lemma move_whole (h : e.Ligates) (hlong : 2 ≤ rest.length) (hwhole : (e.move rest).2 = rest.length) :
    ∃ g, e [] rest = some ([g], rest.length) := by
  unfold move at hwhole
  cases hx : e [] rest with
  | none =>
    rw [hx] at hwhole
    exact absurd hwhole (Nat.ne_of_lt hlong)
  | some x =>
    rw [hx] at hwhole
    obtain ⟨g, hg⟩ := h [] rest x hx (hwhole ▸ hlong)
    exact ⟨g, congrArg some (Prod.ext hg hwhole)⟩

/-- Where one effect takes up all of several glyphs, so does another that leaves the same. -/
lemma step_of_whole (h' : e'.Prefixed) (hwrites : e.Writes) (hligates : e'.Ligates)
    (hsame : sweep e [] rest = sweep e' [] rest) (hlong : 2 ≤ rest.length) (hwhole : (e'.move rest).2 = rest.length) :
    e.step [] rest = e'.step [] rest := by
  have hrest : rest ≠ [] := length_pos_iff.1 (Nat.lt_of_lt_of_le Nat.two_pos hlong)
  obtain ⟨g, hg⟩ := move_whole hligates hlong hwhole
  rw [hwrites.step_of_sweep hrest (hsame.trans (sweep_whole hrest hg)), h'.step_some hg, drop_length]
  rfl

/-- **Two effects on beginnings that leave the same of every buffer take the same steps.** The step on a sequence is
that on a shorter one, unless one of the two takes up all of it. -/
lemma step_of_sweeps (h : e.Prefixed) (h' : e'.Prefixed) (hwrites : e.Writes) (hwrites' : e'.Writes)
    (hligates : e.Ligates) (hligates' : e'.Ligates) (hsame : ∀ glyphs, sweep e [] glyphs = sweep e' [] glyphs)
    (hq : q ≠ []) : e.step [] q = e'.step [] q := by
  induction hn : q.length using Nat.strongRecOn generalizing q with
  | _ n ih =>
    have hpos := length_pos_iff.2 hq
    by_cases hshort : q.length = 1
    · obtain ⟨g, rfl⟩ := length_eq_one_iff.1 hshort
      rw [step_one, step_one, hsame]
    have hlong : 2 ≤ q.length := by omega
    by_cases hwhole' : (e'.move q).2 = q.length
    · exact h'.step_of_whole hwrites hligates' (hsame q) hlong hwhole'
    by_cases hwhole : (e.move q).2 = q.length
    · exact (h.step_of_whole hwrites' hligates (hsame q).symm hlong hwhole).symm
    have hle := h.move_le hq
    have hle' := h'.move_le hq
    have hm : (e.move q).2 ≤ n - 1 := by omega
    have hm' : (e'.move q).2 ≤ n - 1 := by omega
    have hlength : (q.take (n - 1)).length = n - 1 := by rw [length_take]; omega
    have hne : q.take (n - 1) ≠ [] := length_pos_iff.1 (by omega)
    have hstep := ih (n - 1) (by omega) hne hlength
    rw [h.step_eq_move, h'.step_eq_move, h.move_take hm, h'.move_take hm', Prod.mk.injEq] at hstep
    have htaken : (e.move q).2 = (e'.move q).2 := by
      have := congrArg List.length hstep.2
      rw [length_drop, length_drop] at this
      omega
    rw [h.step_eq_move, h'.step_eq_move, hstep.1, htaken]

end Effect.Prefixed

end GlyphRules.Shaping
