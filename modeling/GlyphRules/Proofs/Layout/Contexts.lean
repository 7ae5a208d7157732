import GlyphRules.Proofs.Shaping.Sweep
import GlyphRules.Layout.Rules

/-! The rules of contexts.

A table lists what stands before a place from the nearest glyph on, a rule lists it in the order of the text.
The rule made of a row of a context fits at a place exactly when the row matches there, whatever part of the
buffer can be seen (`contextRules_match`). -/
namespace GlyphRules.Layout

open Step Shaping Shape
open List hiding after

/-- The rows of a context that lists glyphs or sets of them, in the order of the table. -/
def Context.rows? : Context → Option (List (ContextRule Slot))
  | .glyphs firsts sets => some ((sets.zip firsts).flatMap fun set => (set.1.getD []).map fun r =>
    { input := (set.2 :: r.input).map ([·]), before := r.before.map ([·]), after := r.after.map ([·]), calls := r.calls })
  | .coverage input before after calls => some [{ input, before, after, calls }]
  | _ => none

/-- Whether a row matches at a place: its input from there on, the glyphs before from the place backwards, and the
glyphs after from the end of the input on. A row without input matches nowhere. -/
def matchesAt (r : ContextRule Slot) (glyphs : List String) (n : Nat) : Bool :=
  !r.input.isEmpty && fills ((glyphs.drop n).take r.input.length) r.input &&
    fills ((glyphs.take n).reverse.take r.before.length) r.before &&
    fills ((glyphs.drop (n + r.input.length)).take r.after.length) r.after

variable {r : ContextRule Slot} {rule : Rule} {glyphs : List String} {wanted : List Slot}

lemma fills_iff : fills glyphs wanted = true ↔ Forall₂ (fun g slot => g ∈ slot) glyphs wanted := by
  induction wanted generalizing glyphs with
  | nil => cases glyphs <;> simp [fills]
  | cons slot wanted ih => cases glyphs <;> simp [fills, ih]

lemma fills_reverse : fills glyphs.reverse wanted.reverse = fills glyphs wanted := by
  rw [Bool.eq_iff_iff, fills_iff, fills_iff, forall₂_reverse_iff]

/-- A chain with the slots of a row, in the order of the text. -/
def Follows (r : ContextRule Slot) (rule : Rule) : Prop :=
  ∃ calls, rule.body = .chaining { input := some r.input, before := r.before.reverse, after := r.after, calls }

lemma Follows.slots (h : Follows r rule) : rule.input = some r.input ∧ Rewrite.ofRule rule =
    { input := r.input, before := r.before.reverse, after := r.after, output := [] } := by
  obtain ⟨calls, hbody⟩ := h
  simp [Rewrite.ofRule, Rule.input, Rule.before, Rule.after, hbody]

lemma Follows.fitsBetween (h : Follows r rule) (glyphs) (n) :
    (Rewrite.ofRule rule).fitsBetween (glyphs.take n) (glyphs.drop n) = matchesAt r glyphs n := by
  rw [matchesAt, h.slots.2, ← @fills_reverse _ r.before, take_reverse, reverse_reverse, ← drop_drop,
    Rewrite.fitsBetween, length_reverse]

/-- A rule that follows a row fits where the row matches, if it can be written down. -/
lemma Follows.wouldApply (h : Follows r rule) (hinput : Unclassed r.input) (hbefore : Unclassed r.before)
    (hafter : Unclassed r.after) (classes) {s} (hsees : s.buffer.Sees glyphs) {n}
    (hn : n < glyphs.length) (hwrite : ∃ text t, (write rule).on s = (.ok text, t)) :
    ∃ t, (wouldApply classes rule n).on s = (.ok (matchesAt r glyphs n), t) := by
  obtain ⟨hi, hslots⟩ := h.slots
  have hreads : Reads rule :=
    ⟨by rw [hi, hslots], by rw [hslots]; exact fun slot hslot => hbefore slot (mem_reverse.1 hslot),
      by rwa [hslots], by rwa [hslots],
      fun a ha => by obtain ⟨calls, hbody⟩ := h; rw [hbody] at ha; cases ha⟩
  rw [← take_append_drop n glyphs] at hsees
  obtain ⟨t, ht⟩ := wouldApply_reads classes hreads hwrite hsees
  rw [length_take_of_le (Nat.le_of_lt hn), h.fitsBetween] at ht
  exact ⟨t, ht⟩

variable {s : Setting} {flags : Int} {number : Nat} {c : Context} {rows : List (ContextRule Slot)} {rules : List Rule}

lemma chainRule_follows (h : chainRule s flags number r.input r.before.reverse r.after r.calls = .ok rule) :
    Follows r rule := by
  obtain ⟨calls, -, h⟩ := bind_eq_ok.1 h
  cases h
  exact ⟨calls, rfl⟩

lemma contextRules_rows (hrows : c.rows? = some rows) (h : contextRules s flags number c = .ok rules) :
    Forall₂ (fun r rule => chainRule s flags number r.input r.before.reverse r.after r.calls = .ok rule) rows rules := by
  cases c with
  | unknown | classes => cases hrows
  | coverage input before after calls =>
    cases hrows
    obtain ⟨rule, hrule, h⟩ := bind_eq_ok.1 h
    cases h
    exact .cons hrule .nil
  | glyphs firsts sets =>
    cases hrows
    obtain ⟨groups, hgroups, h⟩ := bind_eq_ok.1 h
    cases h
    refine rel_flatten (forall₂_map_left_iff.2 ((mapM_iff_forall₂.1 hgroups).imp ?_))
    rintro ⟨set, first⟩ group hgroup
    cases set with
    | none => cases hgroup
    | some set =>
      refine forall₂_map_left_iff.2 ((mapM_iff_forall₂.1 hgroup).imp fun r rule hrule => ?_)
      rwa [← map_reverse]

/-- **The rule made of a row fits at a place exactly when the row matches there.** -/
theorem contextRules_match (hrows : c.rows? = some rows)
    (hnames : ∀ r ∈ rows, Unclassed r.input ∧ Unclassed r.before ∧ Unclassed r.after)
    (h : contextRules s flags number c = .ok rules) :
    Forall₂ (fun r rule => ∀ (classes : Classes) (t : Session) (glyphs : List String) (n : Nat),
      t.buffer.Sees glyphs → n < glyphs.length → (∃ text u, (write rule).on t = (.ok text, u)) →
        ∃ u, (wouldApply classes rule n).on t = (.ok (matchesAt r glyphs n), u)) rows rules := by
  refine ((forall₂_and_left ..).2 ⟨hnames, contextRules_rows hrows h⟩).imp ?_
  rintro r rule ⟨⟨hinput, hbefore, hafter⟩, hrule⟩ classes t glyphs n hsees hn hwrite
  exact (chainRule_follows hrule).wouldApply hinput hbefore hafter classes hsees hn hwrite

/-- A context of three glyphs around a place. -/
def around : Context := .glyphs ["b"] [some [{ input := ["c"], before := ["a"], after := ["d"], calls := [] }]]

/-- A text in which the second glyph cannot be seen. -/
def masked : Session :=
  { book := {}, font := ⟨[]⟩, characters := {}
    buffer := { items := ["a", "x", "b", "c", "d"].map fun g => { glyph := some g }, view := .chosen [0, 2, 3, 4] } }

theorem contextRules_match_masked : ∃ rule t, contextRules ⟨.substitution, {}, none, 0, 0⟩ 0 5 around = .ok [rule] ∧
    (wouldApply [] rule 1).on masked = (.ok true, t) := by
  have written : Feature.Written "" (.ignore [.name "a"] [.name "b", .name "c"] [.name "d"]) :=
    ⟨⟨_, by rw [Feature.Statement.render]⟩, by decide⟩
  obtain ⟨text, htext⟩ := written.text
  obtain ⟨rule, hrule⟩ : ∃ rule, contextRules ⟨.substitution, {}, none, 0, 0⟩ 0 5 around = .ok [rule] := ⟨_, rfl⟩
  have hwrite : (write rule).on masked = (.ok text, masked) := by
    cases hrule
    unfold write
    rw [on_bind_ok (show (List.forM _ warn).on masked = (.ok (), masked) from rfl), on_get_bind, on_ofExcept]
    exact congrArg (·, masked) (htext)
  obtain - | ⟨hrow, -⟩ :=
    contextRules_match (rfl) (by decide) hrule
  obtain ⟨t, ht⟩ := hrow [] masked ["a", "b", "c", "d"] 1
    ⟨["a", "b", "c", "d"].map fun g => { glyph := some g }, by simp [masked, View.places], rfl⟩ (by decide) ⟨_, _, hwrite⟩
  exact ⟨rule, t, hrule, ht⟩

end GlyphRules.Layout
