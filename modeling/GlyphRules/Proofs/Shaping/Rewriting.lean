import GlyphRules.Proofs.Shaping.Frame
import GlyphRules.Proofs.Feature.SubstitutionText

/-! Substitutions as rewriting rules.

`rewriteFrom` reads glyphs from left to right: at each step the first rule that fits is taken, and
where none fits the next glyph is passed on. What is done is read again only as context.

A rule of a book takes part if it does nothing but put glyphs for glyphs (`IsRewriting`). A rule on
slots of glyphs (`Reads`) fits at a place exactly when its rewriting fits between what is seen
before the place and what is seen from there on (`slotsMatch_eq`). -/
namespace GlyphRules.Shaping

open Step
open Feature hiding ofRule
open List hiding after

variable {font : Font} {slots : List Slot} {r : Rule} {glyphs : List String} {items : List Item}

/-! ### Rewriting -/

/-- What a rule reads and writes, slot by slot. -/
structure Rewrite where
  before : List Slot
  input : List Slot
  after : List Slot
  output : List Slot
deriving DecidableEq

/-- Whether the glyph at each position is one of its slot. -/
def fills : List String → List Slot → Bool
  | [], [] => true
  | g :: gs, s :: ss => s.contains g && fills gs ss
  | _, _ => false

namespace Rewrite

/-- Whether the rule fits where the rest begins: its input there, its contexts on either side. -/
def fitsBetween (w : Rewrite) (done rest : List String) : Bool :=
  !w.input.isEmpty && fills (rest.take w.input.length) w.input &&
    fills (done.drop (done.length - w.before.length)) w.before &&
    fills ((rest.drop w.input.length).take w.after.length) w.after

/-- The glyph of a slot that stands for one of another: the only one, or the one at its place. -/
def counterpart (i o : Slot) (g : String) : String :=
  match o with
  | [x] => x
  | _ => o.getD (i.idxOf g) ""

/-- What the rule writes for the glyphs it has matched: the counterpart of one glyph, or the
first glyph of every slot. -/
def written (w : Rewrite) (matched : List String) : List String :=
  match w.input, w.output with
  | [i], [o] => matched.map (counterpart i o)
  | _, output => output.map (·.headD "")

end Rewrite

open Rewrite hiding after

/-- Rewrite the rest, taking the first rule that fits at each step. -/
def rewriteFrom (rules : List Rewrite) (done rest : List String) : List String :=
  match rest with
  | [] => done
  | g :: tail =>
    match _found : rules.find? (·.fitsBetween done (g :: tail)) with
    | some w =>
      rewriteFrom rules (done ++ w.written ((g :: tail).take w.input.length)) ((g :: tail).drop w.input.length)
    | none => rewriteFrom rules (done ++ [g]) tail
termination_by rest.length
decreasing_by
  · have fits := find?_some ‹_›
    have : w.input ≠ [] := by
      intro he
      simp [fitsBetween, he] at fits
    have : 0 < w.input.length := length_pos_iff.2 this
    simp
    omega
  · simp

/-- One step: the rule that was found is applied, or the next glyph is passed on. -/
def Rewrite.next (found : Option Rewrite) (done rest : List String) : List String × List String :=
  match found with
  | some w => (done ++ w.written (rest.take w.input.length), rest.drop w.input.length)
  | none => (done ++ rest.take 1, rest.drop 1)

section
variable (rules : List Rewrite) (done : List String) {rest : List String} (hrest : rest ≠ [])
include rules done hrest

lemma rewriteFrom_next : rewriteFrom rules done rest =
      rewriteFrom rules (next (rules.find? (·.fitsBetween done rest)) done rest).1
        (next (rules.find? (·.fitsBetween done rest)) done rest).2 := by
  obtain ⟨g, tail, rfl⟩ := exists_cons_of_ne_nil hrest
  rw [rewriteFrom]
  split
  · next w hw => simp only [hw, Rewrite.next]
  · next hnone => simp [hnone, Rewrite.next]

lemma length_next_lt : (next (rules.find? (·.fitsBetween done rest)) done rest).2.length < rest.length := by
  have hpos : 0 < rest.length := length_pos_iff.2 hrest
  cases hfound : rules.find? (·.fitsBetween done rest) with
  | none =>
    simp only [Rewrite.next, length_drop]
    omega
  | some w =>
    have fits := find?_some hfound
    have hw : w.input ≠ [] := by
      intro he
      simp [fitsBetween, he] at fits
    have : 0 < w.input.length := length_pos_iff.2 hw
    simp only [Rewrite.next, length_drop]
    omega

end

/-! ### Rules that rewrite -/

/-- A rule as a rewriting reads it. -/
def Rewrite.ofRule (r : Rule) : Rewrite :=
  { before := r.before
    input := r.input.getD []
    after := r.after
    output := match r.body with
      | .substitution s => s.replacement.getD []
      | _ => [] }

/-- No slot is empty, and each holds glyphs of the font and no class. -/
def Glyphs (font : Font) (slots : List Slot) : Prop :=
  ∀ slot ∈ slots, slot ≠ [] ∧ ∀ g ∈ slot, g ∈ font.names ∧ g.toList.head? ≠ some '@'
deriving Decidable

/-- A rule that rewrites glyphs of the font and does nothing else. -/
structure IsRewriting (font : Font) (r : Rule) : Prop where
  body : ∃ s, r.body = .substitution s ∧ s.reversal.counts = false ∧ s.calls.anyGiven = false
  shape : SlotShape (ofRule r).input (ofRule r).output
  before : Glyphs font (ofRule r).before
  input : Glyphs font (ofRule r).input
  after : Glyphs font (ofRule r).after
  output : Glyphs font (ofRule r).output
  flags : r.flags.counts = false
  writable : r.unwritable = false

instance {p : Substitution → Prop} [DecidablePred p] : (body : RuleBody) → Decidable (∃ s, body = .substitution s ∧ p s)
  | .substitution s => decidable_of_iff (p s) (by simp)
  | .positioning _ | .attachment _ | .chaining _ => .isFalse (by simp)

instance (font : Font) (r : Rule) : Decidable (IsRewriting font r) :=
  decidable_of_iff ((∃ s, r.body = .substitution s ∧ s.reversal.counts = false ∧ s.calls.anyGiven = false) ∧
      SlotShape (ofRule r).input (ofRule r).output ∧ Glyphs font (ofRule r).before ∧
      Glyphs font (ofRule r).input ∧ Glyphs font (ofRule r).after ∧
      Glyphs font (ofRule r).output ∧ r.flags.counts = false ∧ r.unwritable = false)
    ⟨fun ⟨body, shape, before, input, after, output, flags, writable⟩ =>
      ⟨body, shape, before, input, after, output, flags, writable⟩,
      fun h => ⟨h.body, h.shape, h.before, h.input, h.after, h.output, h.flags, h.writable⟩⟩

lemma Glyphs.named (h : Glyphs font slots) : Feature.Named slots := by
  intro slot hslot
  refine ⟨(h slot hslot).1, fun hmem => ?_⟩
  exact ((h slot hslot).2 nameless hmem).2 (by decide)

lemma IsRewriting.sides (h : IsRewriting font r) : ∃ s, r.body = .substitution s ∧
    s.input = some (ofRule r).input ∧ s.replacement = some (ofRule r).output ∧
    s.before = (ofRule r).before ∧ s.after = (ofRule r).after ∧
    s.reversal.counts = false ∧ s.calls.anyGiven = false := by
  obtain ⟨s, hs, hreversal, hcalls⟩ := h.body
  have hi : (ofRule r).input = s.input.getD [] := by simp [ofRule, Rule.input, hs]
  have ho : (ofRule r).output = s.replacement.getD [] := by simp [ofRule, hs]
  have hb : (ofRule r).before = s.before := by simp [ofRule, Rule.before, hs]
  have ha : (ofRule r).after = s.after := by simp [ofRule, Rule.after, hs]
  have hne := h.shape.ne_nil
  refine ⟨s, hs, ?_, ?_, hb.symm, ha.symm, hreversal, hcalls⟩
  · rw [hi] at hne ⊢
    cases hsi : s.input with
    | none => simp [hsi] at hne
    | some input => rfl
  · rw [ho] at hne ⊢
    cases hso : s.replacement with
    | none => simp [hso] at hne
    | some output => rfl

/-- No class among the slots. -/
def Unclassed (slots : List Slot) : Prop := ∀ slot ∈ slots, ∀ g ∈ slot, g.toList.head? ≠ some '@'
deriving Decidable

lemma Glyphs.unclassed (h : Glyphs font slots) : Unclassed slots := fun slot hslot g hg => ((h slot hslot).2 g hg).2

/-- A rule on slots of glyphs, whatever it does to what it finds. -/
structure Reads (r : Rule) : Prop where
  given : r.input = some (ofRule r).input
  before : Unclassed (ofRule r).before
  input : Unclassed (ofRule r).input
  after : Unclassed (ofRule r).after
  slots : ∀ a, r.body ≠ .attachment a

lemma IsRewriting.reads (h : IsRewriting font r) : Reads r := by
  obtain ⟨s, hs, hi, -⟩ := h.sides
  refine ⟨?_, h.before.unclassed, h.input.unclassed, h.after.unclassed, ?_⟩
  · simp only [Rule.input, hs, hi]
  · intro a ha
    rw [hs] at ha
    cases ha

lemma IsRewriting.text (h : IsRewriting font r) (b) : ∃ t, ruleText b r = .ok t := by
  obtain ⟨s, hs, hi, ho, hb, ha, hreversal, hcalls⟩ := h.sides
  obtain ⟨st, hst, hwritten⟩ := ofSubstitution_written hi ho h.shape hreversal hcalls h.input.named
    h.output.named (hb ▸ h.before.named) (ha ▸ h.after.named)
  unfold ruleText Feature.ofRule
  simp only [hs, h.writable, hst]
  exact hwritten.text

/-! ### Matching -/

lemma fills_length (h : fills glyphs slots = true) : glyphs.length = slots.length := by
  induction glyphs generalizing slots with
  | nil =>
    cases slots with
    | nil => rfl
    | cons => cases h
  | cons g gs ih =>
    cases slots with
    | nil => cases h
    | cons s ss =>
      simp only [fills, Bool.and_eq_true] at h
      simp [ih h.2]

abbrev Spells (items : List Item) (glyphs : List String) : Prop := items.map (·.glyph) = glyphs.map some

lemma expandSlot_glyphs (classes) {slot} (h : ∀ g ∈ slot, g.toList.head? ≠ some '@') :
    expandSlot classes slot = slot := by
  induction slot with
  | nil => rfl
  | cons g rest ih =>
    have hrest : expandSlot classes rest = rest := ih fun g hg => h g (.tail _ hg)
    unfold expandSlot at hrest ⊢
    rw [flatMap_cons, hrest, expandName]
    split
    · next name hname => exact absurd (by rw [hname]; rfl) (h g (.head _))
    · rfl

lemma matchSlots_eq_fills (classes) (hspells : Spells items glyphs) (hslots : Unclassed slots) :
    matchSlots classes items slots = fills glyphs slots := by
  induction items generalizing glyphs slots with
  | nil =>
    obtain rfl : glyphs = [] := by simpa using hspells.symm
    cases slots <;> rfl
  | cons i items ih =>
    cases glyphs with
    | nil => cases hspells
    | cons g glyphs =>
      obtain ⟨hi, hitems⟩ : i.glyph = some g ∧ Spells items glyphs := cons.inj hspells
      cases slots with
      | nil => rfl
      | cons s slots =>
        have hrest := ih hitems fun s hs => hslots s (.tail _ hs)
        have hfits : fits classes s i = s.contains g := by
          rw [fits, hi, expandSlot_glyphs classes (hslots s (.head _))]
        rw [fills, ← hfits, ← hrest]
        unfold matchSlots
        simp only [length_cons]
        rw [show (items.length + 1 == slots.length + 1) = (items.length == slots.length) by simp]
        exact Bool.and_left_comm _ _ _

lemma named_ok (h : Spells items glyphs) : ∃ text, named items = .ok text := by
  have spelt : items.mapM (·.glyph) = some glyphs := by
    calc items.mapM (·.glyph) = (items.map (·.glyph)).mapM id := by rw [mapM_map]; rfl
      _ = (glyphs.map some).mapM id := by rw [h]
      _ = some glyphs := by
        rw [mapM_map]
        exact mapM_pure.trans (by simp)
  rw [named, spelt]
  exact ⟨_, rfl⟩

lemma sideMatches_eq (classes) (side) (h : Spells items glyphs) (hslots : Unclassed slots) :
    ∃ v, sideMatches classes side items slots = .ok v ∧ v.fits = fills glyphs slots := by
  rw [sideMatches, matchSlots_eq_fills classes h hslots]
  cases fills glyphs slots with
  | true => exact ⟨_, rfl, rfl⟩
  | false =>
    obtain ⟨text, htext⟩ := named_ok h
    rw [htext]
    exact ⟨_, rfl, rfl⟩

/-- The items that can be seen have these glyphs. -/
def Buffer.Sees (b : Buffer) (glyphs : List String) : Prop := ∃ items, b.Shows b.view.places items ∧ Spells items glyphs

lemma Buffer.Whole.sees {b : Buffer} (h : b.Whole) (hspells : Spells b.items glyphs) : b.Sees glyphs :=
  ⟨_, h.shows, hspells⟩

section Match
variable {b : Buffer} {done rest : List String} (hsees : b.Sees (done ++ rest))
include hsees

lemma slice_spells (i j : Nat) :
    ∃ items, b.slice i j = .ok items ∧ Spells items (((done ++ rest).take j).drop i) := by
  obtain ⟨items, shows, hspells⟩ := hsees
  exact ⟨_, shows.slice i j, by rw [Spells, map_drop, map_take, hspells, map_drop, map_take]⟩

section
variable (classes : Classes)
include classes

lemma beforeMatches_eq {before} (hslots : Unclassed before) :
    ∃ v, beforeMatches b classes before done.length = .ok v ∧
      v.fits = fills (done.drop (done.length - before.length)) before := by
  unfold beforeMatches
  by_cases hempty : before = []
  · subst hempty
    exact ⟨_, rfl, by simp [fills]⟩
  rw [if_neg (by simpa using hempty)]
  by_cases hshort : done.length < before.length
  · rw [if_pos (by omega)]
    refine ⟨_, rfl, ?_⟩
    cases hfills : fills (done.drop (done.length - before.length)) before with
    | false => rfl
    | true =>
      have := fills_length hfills
      simp at this
      omega
  · rw [if_neg (by omega),
      show (done.length : Int) - before.length = (done.length - before.length : Nat) by omega]
    obtain ⟨items, hitems, hfound⟩ := slice_spells hsees (done.length - before.length) done.length
    rw [take_left] at hfound
    rw [hitems]
    exact sideMatches_eq classes _ hfound hslots

lemma afterMatches_eq {after} (hslots : Unclassed after) {n}
    (hn : n ≤ rest.length) : ∃ v, afterMatches b classes after (done.length + n : Nat) = .ok v ∧
      v.fits = fills ((rest.drop n).take after.length) after := by
  unfold afterMatches
  have hlength : b.view.size = done.length + rest.length := by
    obtain ⟨items, shows, hspells⟩ := hsees
    simpa [← View.length_places, shows.length_eq] using congrArg length hspells
  by_cases hempty : after = []
  · subst hempty
    exact ⟨_, rfl, by simp [fills]⟩
  rw [if_neg (by simpa using hempty)]
  by_cases hshort : rest.length < n + after.length
  · rw [if_pos (by omega)]
    refine ⟨_, rfl, ?_⟩
    cases hfills : fills ((rest.drop n).take after.length) after with
    | false => rfl
    | true =>
      have := fills_length hfills
      simp at this
      omega
  · rw [if_neg (by omega)]
    obtain ⟨items, hitems, hfound⟩ :=
      slice_spells hsees (done.length + n) (done.length + n + after.length)
    have hrest : ((done ++ rest).take (done.length + n + after.length)).drop (done.length + n) =
        (rest.drop n).take after.length := by
      simp [drop_take]
    rw [hrest] at hfound
    rw [← Int.natCast_add, hitems]
    exact sideMatches_eq classes _ hfound hslots

lemma contextMatches_eq (h : Reads r) (hinput : inputOf r = .ok (ofRule r).input)
    (hn : (ofRule r).input.length ≤ rest.length) :
    ∃ v, contextMatches b classes r done.length = .ok v ∧
      v.fits = (fills (done.drop (done.length - (ofRule r).before.length)) (ofRule r).before &&
        fills ((rest.drop (ofRule r).input.length).take (ofRule r).after.length)
          (ofRule r).after) := by
  obtain ⟨v, hv, hfits⟩ := beforeMatches_eq hsees classes h.before
  rw [contextMatches, show r.before = (ofRule r).before from rfl, show r.after = (ofRule r).after from rfl, hv,
    ok_bind, ← hfits]
  cases hf : v.fits with
  | false => exact ⟨v, rfl, by simp [hf]⟩
  | true =>
    by_cases hempty : (ofRule r).after = []
    · exact ⟨⟨true, []⟩, by simp [hempty, pure, Except.pure], by simp [hempty, fills]⟩
    · obtain ⟨w, hw, hafter⟩ := afterMatches_eq hsees classes h.after hn
      refine ⟨w, ?_, by simp [hafter]⟩
      simp only [Bool.not_true, Bool.false_eq_true, if_false, List.isEmpty_iff, hempty, hinput, ok_bind]
      rw [← Int.natCast_add, hw]

/-- A rule fits at the place where the rest begins when its rewriting fits between the two. -/
lemma slotsMatch_eq (h : Reads r) :
    ∃ v, slotsMatch b classes r done.length = .ok v ∧ v.fits = (ofRule r).fitsBetween done rest := by
  have hinput : inputOf r = .ok (ofRule r).input := by
    unfold inputOf
    simp only [h.given]
  unfold slotsMatch fitsBetween
  rw [hinput, ok_bind]
  cases hne : (ofRule r).input.isEmpty with
  | true => exact ⟨_, rfl, rfl⟩
  | false =>
    obtain ⟨items, hitems, hfound⟩ :=
      slice_spells hsees done.length (done.length + (ofRule r).input.length)
    rw [take_length_add_append, drop_left] at hfound
    rw [← Int.natCast_add, hitems, ok_bind, matchSlots_eq_fills classes hfound h.input]
    obtain ⟨text, htext⟩ := named_ok hfound
    cases hfills : fills (rest.take (ofRule r).input.length) (ofRule r).input with
    | false =>
      rw [htext]
      exact ⟨_, rfl, rfl⟩
    | true =>
      have hn : (ofRule r).input.length ≤ rest.length := by
        have := fills_length hfills
        simp at this
        omega
      obtain ⟨v, hv, hfits⟩ := contextMatches_eq hsees classes h hinput hn
      rw [hv, htext]
      simp only [ok_bind, Bool.not_false, Bool.true_and, ← hfits]
      cases hf : v.fits with
      | false => exact ⟨v, rfl, hf⟩
      | true => exact ⟨_, rfl, rfl⟩

end

end Match

end GlyphRules.Shaping
