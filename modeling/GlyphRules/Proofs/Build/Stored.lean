import Mathlib.Data.List.Find
import GlyphRules.Build.Routine
import GlyphRules.Proofs.Dict
import GlyphRules.Proofs.Shaping.Table

/-! What a font keeps of rules.

A lookup without context holds a table of sequences of glyphs and what is put for them: a later rule
writes over an earlier one, and the longest sequence is looked up first. In context it holds the
rules in order, but each position is replaced on its own. `Rewrite.stored` is the effect of such a
lookup.

It is compared with shaping at the windows of the rules: the finitely many sequences that a rule can
read, contexts included. If the steps agree there they agree everywhere (`OneKind.step_eq`).
Conversely they agree there if both leave the same glyphs: without context from the start of every
buffer (`reproduces_of_sweeps`), in context from every place on (`OneKind.goesOn_iff`). -/
namespace GlyphRules.Shaping

open List hiding product
open Build (product)

variable {q : List String} {x : List String × List String}

variable {w : Rewrite} {ws : List Rewrite}

/-! ### Windows -/

lemma mem_product : q ∈ product slots ↔ fills q slots = true := by
  induction slots generalizing q with
  | nil =>
    cases q with
    | nil => exact iff_of_true (mem_singleton_self _) rfl
    | cons => exact iff_of_false (by simp [product]) nofun
  | cons s slots ih =>
    cases q with
    | nil => exact iff_of_false (by simp [product]) nofun
    | cons g q => simp [product, fills, ih]

namespace Rewrite

/-- What the rule can read: the glyphs before the place, and those of its input and after it. -/
def windows (w : Rewrite) : List (List String × List String) :=
  (product w.before).flatMap fun p => (product w.input).flatMap fun q => (product w.after).map fun a => (p, q ++ a)

lemma mem_windows : x ∈ w.windows ↔ ∃ p q a,
    fills p w.before ∧ fills q w.input ∧ fills a w.after ∧ (p, q ++ a) = x := by
  simp only [windows, mem_flatMap, mem_map, mem_product]
  exact ⟨fun ⟨p, hp, q, hq, a, ha, hx⟩ => ⟨p, q, a, hp, hq, ha, hx⟩,
    fun ⟨p, q, a, hp, hq, ha, hx⟩ => ⟨p, hp, q, hq, a, ha, hx⟩⟩

end Rewrite

/-- What is found among few that hold is found among fewer. -/
lemma find?_of_imp {α : Type} {p q} {l : List α} {a} (h : l.find? p = some a) (ha : q a)
    (himp : ∀ x ∈ l, q x → p x) : l.find? q = some a := by
  obtain ⟨-, l₁, l₂, rfl, hfirst⟩ := find?_eq_some_iff_append.1 h
  refine find?_eq_some_iff_append.2 ⟨ha, l₁, l₂, rfl, fun x hx => ?_⟩
  grind

/-! ### What is kept -/

namespace Rewrite

/-- What the rule puts into a table: pairs of glyphs, the first glyph of a slot, or every choice from the slots. -/
def entries (w : Rewrite) : List (List String × List String) :=
  match w.input, w.output with
  | [i], [o] => (i.zip o).map fun x => ([x.1], [x.2])
  | [i], output => [([i.headD ""], output.map (·.headD ""))]
  | input, output => (product input).map fun q => (q, output.map (·.headD ""))

/-- The table of rules, in which the last entry counts. -/
def table (ws : List Rewrite) (q : List String) : Option (List String) := Dict.last? (ws.flatMap entries) q

/-- Each glyph replaced by the one across from it, if the slots at its position have one. -/
def inPlace : List Slot → List Slot → List String → List String
  | i :: input, o :: output, g :: rest => (Dict.last? (i.zip o) g).getD g :: inPlace input output rest
  | _, _, rest => rest

def inContext (w : Rewrite) : Bool := !w.before.isEmpty || !w.after.isEmpty

/-- The first rule that fits, with every position replaced on its own. -/
def positions (ws : List Rewrite) : Effect := fun done rest =>
  (ws.find? (·.fitsBetween done rest)).map fun w =>
    (inPlace w.input w.output (rest.take w.input.length), w.input.length)

/-- The effect of the lookup that keeps the rules. -/
def stored (ws : List Rewrite) : Effect := if ws.any inContext then positions ws else lookUp (table ws)

/-- At every window of a rule, shaping and the lookup take the same step. -/
def Reproduces (ws : List Rewrite) : Prop :=
  ∀ w ∈ ws, ∀ x ∈ w.windows, (effect ws).step x.1 x.2 = (stored ws).step x.1 x.2
deriving Decidable

/-- A rule that puts glyphs for glyphs, with a glyph in every slot that it reads. -/
structure Apt (w : Rewrite) : Prop where
  shape : SlotShape w.input w.output
  input : ∀ slot ∈ w.input, slot ≠ []

/-- Rules that one lookup can hold: for single glyphs, for ligatures, or all in context. -/
inductive OneKind (ws : List Rewrite) : Prop
  | single (h : ∀ w ∈ ws, w.inContext = false ∧ w.input.length = 1)
  | ligature (h : ∀ w ∈ ws, w.inContext = false ∧ 2 ≤ w.input.length)
  | context (hne : ws ≠ []) (h : ∀ w ∈ ws, w.inContext = true)

lemma inContext_eq_false : w.inContext = false ↔ w.before = [] ∧ w.after = [] := by
  simp [inContext]

lemma stored_free (h : ∀ w ∈ ws, w.inContext = false) : stored ws = lookUp (table ws) := by
  have none : ws.any inContext = false := by simpa using h
  rw [stored, none]
  rfl

lemma stored_context (hne : ws ≠ []) (h : ∀ w ∈ ws, w.inContext) : stored ws = positions ws := by
  obtain ⟨w, hw⟩ := exists_mem_of_ne_nil ws hne
  rw [stored, if_pos (any_eq_true.2 ⟨w, hw, h w hw⟩)]

lemma entries_ligature (h : 2 ≤ w.input.length) :
    w.entries = (product w.input).map fun q => (q, w.output.map (·.headD "")) := by
  obtain ⟨i, j, rest, hinput⟩ := exists_cons_cons h
  unfold entries
  simp only [hinput]

/-- A table has only sequences that a rule can read. -/
lemma Apt.fills_entry (h : w.Apt) (hx : x ∈ w.entries) : fills x.1 w.input = true := by
  obtain ⟨before, input, after, output⟩ := w
  obtain ⟨hshape, hinput⟩ := h
  cases hshape with
  | @single i o =>
    obtain ⟨y, hy, rfl⟩ := mem_map.1 hx
    simpa [fills] using (of_mem_zip hy).1
  | @ligature _ o hlen =>
    rw [entries_ligature hlen] at hx
    obtain ⟨q, hq, rfl⟩ := mem_map.1 hx
    exact mem_product.1 hq
  | @multiple i _ hlen =>
    obtain ⟨o, o', rest, rfl⟩ := exists_cons_cons hlen
    obtain rfl := mem_singleton.1 hx
    obtain ⟨g, i, rfl⟩ := exists_cons_of_ne_nil (hinput i (mem_singleton_self i))
    simp [fills]

/-! ### Rules without context -/

section Free

lemma effect_prefixed (h : ∀ w ∈ ws, w.inContext = false ∧ w.input ≠ []) : (effect ws).Prefixed where
  alone done rest := by
    unfold effect
    rw [find?_congr fun w hw => ?_]
    obtain ⟨hbefore, hafter⟩ := inContext_eq_false.1 (h w hw).1
    rw [fitsBetween_free hbefore hafter (h w hw).2, fitsBetween_free hbefore hafter (h w hw).2]
  bound {rest x} hx := by
    obtain ⟨w, -, hfits, rfl⟩ := effect_eq_some hx
    obtain ⟨hinput, hq, -⟩ := fitsBetween_iff.1 hfits
    have hlen := fills_length hq
    rw [length_take] at hlen
    exact ⟨length_pos_iff.2 hinput, by omega⟩
  within {rest x} hx m hm := by
    obtain ⟨w, hw, rfl⟩ := Option.map_eq_some_iff.1 hx
    have hmem := mem_of_find?_eq_some hw
    obtain ⟨hbefore, hafter⟩ := inContext_eq_false.1 (h w hmem).1
    have htake : (rest.take m).take w.input.length = rest.take w.input.length := by
      rw [take_take, Nat.min_eq_left hm]
    have hfits := fits_of_find? hw
    rw [fitsBetween_free hbefore hafter (h w hmem).2, ← htake,
      ← fitsBetween_free hbefore hafter (h w hmem).2 []] at hfits
    rw [effect, find?_of_imp hw hfits fun v _ hv => ?_, Option.map_some, htake]
    have := fitsBetween_append hv [] (rest.drop m)
    rwa [take_append_drop] at this
  beyond {rest} hnone m := by
    refine Option.map_eq_none_iff.2 (find?_eq_none.2 fun w hw hfits => ?_)
    have := fitsBetween_append hfits [] (rest.drop m)
    rw [take_append_drop] at this
    exact find?_eq_none.1 (Option.map_eq_none_iff.1 hnone) w hw this

lemma mem_windows_free (h : w.inContext = false) : x ∈ w.windows ↔ x.1 = [] ∧ fills x.2 w.input = true := by
  obtain ⟨hbefore, hafter⟩ := inContext_eq_false.1 h
  rw [mem_windows, hbefore, hafter]
  constructor
  · rintro ⟨p, q, a, hp, hq, ha, rfl⟩
    obtain rfl := length_eq_zero_iff.1 (fills_length hp)
    obtain rfl := length_eq_zero_iff.1 (fills_length ha)
    exact ⟨rfl, by rwa [append_nil]⟩
  · rintro ⟨hnil, hq⟩
    exact ⟨[], x.2, [], rfl, hq, rfl, Prod.ext hnil.symm (append_nil _)⟩

lemma fills_of_effect {done rest x} (hx : effect ws done rest = some x) :
    ∃ w ∈ ws, fills (rest.take x.2) w.input := by
  obtain ⟨w, hw, hfits, rfl⟩ := effect_eq_some hx
  exact ⟨w, hw, (fitsBetween_iff.1 hfits).2.1⟩

section
variable (hapt : ∀ w ∈ ws, w.Apt)
include hapt

lemma step_eq_free (hfree : ∀ w ∈ ws, w.inContext = false) (hsame : Reproduces ws)
    (done rest) : (effect ws).step done rest = (stored ws).step done rest := by
  have hkinds : ∀ w ∈ ws, w.inContext = false ∧ w.input ≠ [] := fun w hw => ⟨hfree w hw, (hapt w hw).shape.ne_nil.1⟩
  unfold Reproduces at hsame
  rw [stored_free hfree] at hsame ⊢
  refine (effect_prefixed hkinds).step_eq (lookUp_prefixed _) (fun q => ∃ w ∈ ws, fills q w.input)
    (fun _ _ => fills_of_effect) ?_ ?_ done rest
  · intro rest x hx
    obtain ⟨w, hw, hx⟩ := mem_flatMap.1 (Dict.mem_of_last? (longest_eq_some.1 hx).2.2.1)
    exact ⟨w, hw, (hapt w hw).fills_entry hx⟩
  · rintro q ⟨w, hw, hq⟩
    exact hsame w hw ([], q) ((mem_windows_free (hfree w hw)).2 ⟨rfl, hq⟩)

/-- Every sequence that a ligature can read is in the table, with one glyph for it. -/
lemma table_ligature (hlig : ∀ w ∈ ws, 2 ≤ w.input.length) (hw : w ∈ ws)
    (hq : fills q w.input) : ∃ g, table ws q = some [g] := by
  have hmem : (q, w.output.map (·.headD "")) ∈ ws.flatMap entries := by
    refine mem_flatMap.2 ⟨w, hw, ?_⟩
    rw [entries_ligature (hlig w hw)]
    exact mem_map_of_mem (mem_product.2 hq)
  obtain ⟨written, hwritten⟩ := Option.isSome_iff_exists.1 (Dict.last?_isSome hmem)
  obtain ⟨v, hv, hx⟩ := mem_flatMap.1 (Dict.mem_of_last? hwritten)
  rw [entries_ligature (hlig v hv)] at hx
  obtain ⟨q', -, heq⟩ := mem_map.1 hx
  obtain ⟨o, ho⟩ := (hapt v hv).shape.output_singleton (hlig v hv)
  refine ⟨o.headD "", hwritten.trans ?_⟩
  rw [← (Prod.mk.inj heq).2, ho, map_singleton]

lemma effect_writes : (effect ws).Writes := by
  intro done rest x hx
  obtain ⟨w, hw, hfits, rfl⟩ := effect_eq_some hx
  exact written_ne_nil (hapt w hw).shape (fitsBetween_iff.1 hfits).2.1

lemma reproduces_of_sweeps (hkind : OneKind ws) (hfree : ∀ w ∈ ws, w.inContext = false)
    (hsame : ∀ glyphs, sweep (effect ws) [] glyphs = sweep (stored ws) [] glyphs) : Reproduces ws := by
  intro w hw x hx
  obtain ⟨hnil, hq⟩ := (mem_windows_free (hfree w hw)).1 hx
  rw [hnil]
  cases hkind with
  | single h =>
    obtain ⟨g, hg⟩ := length_eq_one_iff.1 ((fills_length hq).trans (h w hw).2)
    rw [hg, step_one, step_one, hsame]
  | ligature h =>
    have hlig : ∀ w ∈ ws, 2 ≤ w.input.length := fun w hw => (h w hw).2
    obtain ⟨g, hg⟩ := table_ligature hapt hlig hw hq
    have hne : x.2 ≠ [] := length_pos_iff.1 (by rw [fills_length hq]; exact Nat.zero_lt_of_lt (hlig w hw))
    -- The lookup takes up all of the window, so shaping has to write one glyph for it as well.
    have hwhole : stored ws [] x.2 = some ([g], x.2.length) := by
      rw [stored_free hfree]
      exact longest_eq_some.2 ⟨length_pos_iff.2 hne, le_rfl, by rwa [take_length],
        fun k hk hk' => absurd hk (Nat.not_lt.2 hk')⟩
    have hsweep : sweep (stored ws) [] x.2 = [g] := sweep_whole hne hwhole
    rw [(effect_writes hapt).step_of_sweep hne ((hsame x.2).trans hsweep),
      Effect.step_some hwhole (length_pos_iff.2 hne), drop_length, nil_append]
  | context hne h =>
    have := h w hw
    rw [hfree w hw] at this
    cases this

end

end Free

/-! ### Rules in context -/

section Context
variable {done rest : List String}

section
variable (h : ws.find? (·.fitsBetween done rest) = some w)
include h

lemma step_effect_some :
    (effect ws).step done rest = (done ++ w.written (rest.take w.input.length), rest.drop w.input.length) := by
  rw [step_effect, h]
  rfl

lemma step_positions_some : (positions ws).step done rest =
      (done ++ inPlace w.input w.output (rest.take w.input.length), rest.drop w.input.length) :=
  Effect.step_some (by rw [positions, h]; rfl)
    (length_pos_iff.2 (fitsBetween_iff.1 (fits_of_find? h)).1)

end

lemma step_none_found (h : ws.find? (·.fitsBetween done rest) = none) :
    (effect ws).step done rest = (positions ws).step done rest := by
  rw [Effect.step_none (by rw [effect, h]; rfl), Effect.step_none (by rw [positions, h]; rfl)]

lemma find?_window (h : ws.find? (·.fitsBetween done rest) = some w) : ∃ p a,
    (p, rest.take w.input.length ++ a) ∈ w.windows ∧
      ws.find? (·.fitsBetween p (rest.take w.input.length ++ a)) = some w := by
  obtain ⟨hinput, hq, hp, ha⟩ := fitsBetween_iff.1 (fits_of_find? h)
  refine ⟨_, _, mem_windows.2 ⟨_, _, _, hp, hq, ha, rfl⟩, ?_⟩
  refine find?_of_imp h (fitsBetween_window hinput hp hq ha) fun v _ hv => ?_
  have := fitsBetween_append hv (done.take (done.length - w.before.length))
    ((rest.drop w.input.length).drop w.after.length)
  rwa [take_append_drop, append_assoc, take_append_drop, take_append_drop] at this

lemma step_eq_context (hne : ws ≠ []) (hcontext : ∀ w ∈ ws, w.inContext) (hsame : Reproduces ws)
    (done rest) : (effect ws).step done rest = (stored ws).step done rest := by
  unfold Reproduces at hsame
  rw [stored_context hne hcontext] at hsame ⊢
  cases hfound : ws.find? (·.fitsBetween done rest) with
  | none => exact step_none_found hfound
  | some w =>
    obtain ⟨p, a, hwindow, hthere⟩ := find?_window hfound
    have hlen : (rest.take w.input.length).length = w.input.length :=
      fills_length (fitsBetween_iff.1 (fits_of_find? hfound)).2.1
    have hstep := hsame w (mem_of_find?_eq_some hfound) _ hwindow
    rw [step_effect_some hthere, step_positions_some hthere, Prod.mk.injEq, append_cancel_left_eq,
      take_append_of_le_length hlen.ge, take_take, Nat.min_self] at hstep
    rw [step_effect_some hfound, step_positions_some hfound, hstep.1]

lemma length_inPlace (input output) (q) : (inPlace input output q).length = q.length := by
  induction input generalizing output q with
  | nil => rfl
  | cons i input ih =>
    cases output with
    | nil => rfl
    | cons o output =>
      cases q with
      | nil => rfl
      | cons g q => exact congrArg (· + 1) (ih output q)

/-- Replacing positions keeps the number of glyphs. -/
lemma length_sweep_positions (ws) (done rest) :
    (sweep (positions ws) done rest).length = done.length + rest.length := by
  fun_induction sweep (positions ws) done rest with
  | case1 => rfl
  | case2 done rest hrest ih =>
    rw [ih]
    cases hfound : ws.find? (·.fitsBetween done rest) with
    | none =>
      rw [Effect.step_none (by rw [positions, hfound]; rfl)]
      simp only [length_append, length_take, length_drop]
      omega
    | some w =>
      have hlen := fills_length (fitsBetween_iff.1 (fits_of_find? hfound)).2.1
      rw [step_positions_some hfound]
      simp only [length_append, length_inPlace, length_take, length_drop] at hlen ⊢
      omega

lemma step_eq_of_goesOn (hsame : ∀ done rest, sweep (effect ws) done rest = sweep (positions ws) done rest)
    (done) {rest} (hrest : rest ≠ []) :
    (effect ws).step done rest = (positions ws).step done rest := by
  cases hfound : ws.find? (·.fitsBetween done rest) with
  | none => exact step_none_found hfound
  | some w =>
    have hlen := fills_length (fitsBetween_iff.1 (fits_of_find? hfound)).2.1
    have hleft : sweep (effect ws) (done ++ w.written (rest.take w.input.length)) (rest.drop w.input.length) =
        sweep (effect ws) done rest := by
      rw [sweep_step _ done hrest, step_effect_some hfound]
    have hright : sweep (positions ws) (done ++ inPlace w.input w.output (rest.take w.input.length))
        (rest.drop w.input.length) = sweep (effect ws) done rest := by
      rw [hsame, sweep_step _ done hrest, step_positions_some hfound]
    -- The lookup keeps lengths, and from the next place on both leave the same: so the rule writes as many as it reads.
    have hlength : (w.written (rest.take w.input.length)).length = w.input.length := by
      have hall := congrArg length hleft
      rw [hsame, hsame, length_sweep_positions, length_sweep_positions, length_append, length_drop] at hall
      rw [length_take] at hlen
      omega
    have hwritten := prefix_of_prefix_length_le (hleft ▸ prefix_sweep (effect ws) _ _)
      (hright ▸ prefix_sweep (positions ws) _ _)
      (by rw [length_append, length_append, length_inPlace, hlength, hlen])
    rw [step_effect_some hfound, step_positions_some hfound,
      hwritten.eq_of_length (by rw [length_append, length_append, length_inPlace, hlength, hlen])]

end Context

/-! ### Rules of one lookup -/

lemma OneKind.step_eq (hkind : OneKind ws) (hapt : ∀ w ∈ ws, w.Apt) (hsame : Reproduces ws)
    (done rest) : (effect ws).step done rest = (stored ws).step done rest := by
  cases hkind with
  | single h | ligature h => exact step_eq_free hapt (fun w hw => (h w hw).1) hsame done rest
  | context hne h => exact step_eq_context hne h hsame done rest

/-- Shaping and the lookup go on alike from every place exactly if they take the same step at every window. -/
lemma OneKind.goesOn_iff (hkind : OneKind ws) (hapt : ∀ w ∈ ws, w.Apt) :
    (∀ done rest, sweep (effect ws) done rest = sweep (stored ws) done rest) ↔ Reproduces ws := by
  refine ⟨fun hsame => ?_, fun hsame => sweep_congr fun done rest _ => hkind.step_eq hapt hsame done rest⟩
  cases hkind with
  | single h => exact reproduces_of_sweeps hapt (.single h) (fun w hw => (h w hw).1) (hsame [])
  | ligature h => exact reproduces_of_sweeps hapt (.ligature h) (fun w hw => (h w hw).1) (hsame [])
  | context hne h =>
    intro w hw x hx
    obtain ⟨p, q, a, -, hq, -, rfl⟩ := mem_windows.1 hx
    have hrest : q ++ a ≠ [] := by
      refine append_ne_nil_of_left_ne_nil (length_pos_iff.1 ?_) a
      rw [fills_length hq]
      exact length_pos_iff.2 (hapt w hw).shape.ne_nil.1
    rw [stored_context hne h] at hsame ⊢
    exact step_eq_of_goesOn hsame p hrest

end Rewrite

end GlyphRules.Shaping
