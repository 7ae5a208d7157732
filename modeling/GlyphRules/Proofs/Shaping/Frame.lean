import GlyphRules.Proofs.Shaping.View

/-! What the steps of a session leave alone.

No step of a run changes a rule, a routine or the font (`SameRules`). Testing a
rule only says something (`Quiet`). Looking at the buffer anew, and placing what is
in it, leave every item its glyph and its masks (`SameGlyphs`); only a
substitution changes them. -/
namespace GlyphRules.Shaping

open Step Keeps Book

/-! ### The relations -/

/-- What a rule asks of an item: its glyph, and the features that pass it over. -/
def Item.core (i : Item) : Option String × List (String × Bool) := (i.glyph, i.masks)

structure SameRules (s t : Session) : Prop where
  rules : t.book.rules = s.book.rules
  routines : t.book.routines = s.book.routines
  font : t.font = s.font

/-- Besides, every item has the glyph and the masks that it had. -/
structure SameGlyphs (s t : Session) : Prop extends SameRules s t where
  items : t.buffer.items.map Item.core = s.buffer.items.map Item.core
  feature : t.buffer.feature = s.buffer.feature

/-- Besides, nothing has happened to the buffer. -/
structure Quiet (s t : Session) : Prop extends SameRules s t where
  buffer : t.buffer = s.buffer

instance : Trans SameRules SameRules SameRules :=
  ⟨fun h k => ⟨k.rules.trans h.rules, k.routines.trans h.routines, k.font.trans h.font⟩⟩

instance : Trans SameGlyphs SameGlyphs SameGlyphs :=
  ⟨fun h k => ⟨Trans.trans h.toSameRules k.toSameRules, k.items.trans h.items, k.feature.trans h.feature⟩⟩

instance : Trans Quiet Quiet Quiet :=
  ⟨fun h k => ⟨Trans.trans h.toSameRules k.toSameRules, k.buffer.trans h.buffer⟩⟩

lemma Quiet.sameGlyphs (h : Quiet s t) : SameGlyphs s t :=
  ⟨h.toSameRules, by rw [h.buffer], by rw [h.buffer]⟩

/-- What holds as long as nothing happens to the buffer. -/
class OfQuiet (R : Session → Session → Prop) : Prop where
  of_quiet : ∀ {s t}, Quiet s t → R s t

/-- What holds as long as items keep their glyphs and masks. -/
class OfSameGlyphs (R : Session → Session → Prop) : Prop where
  of_sameGlyphs : ∀ {s t}, SameGlyphs s t → R s t

section
variable {R : Session → Session → Prop}

instance [OfQuiet R] : Std.Refl R := ⟨fun _ => OfQuiet.of_quiet ⟨⟨rfl, rfl, rfl⟩, rfl⟩⟩

instance [OfSameGlyphs R] : OfQuiet R := ⟨fun h => OfSameGlyphs.of_sameGlyphs h.sameGlyphs⟩

end

instance : OfQuiet Quiet := ⟨fun h => h⟩

instance : OfSameGlyphs SameGlyphs := ⟨fun h => h⟩

instance : OfSameGlyphs SameRules := ⟨SameGlyphs.toSameRules⟩

lemma SameGlyphs.length_eq (h : SameGlyphs s t) : t.buffer.items.length = s.buffer.items.length := by
  simpa using congrArg List.length h.items

namespace SameRules
variable {s t : Session} (h : SameRules s t)
include h

lemma rule_eq (i) : t.book.rule i = s.book.rule i := by
  unfold rule
  rw [h.rules]

lemma routine_eq (i) : t.book.routine i = s.book.routine i := by
  unfold routine
  rw [h.routines]

lemma ruleIdsWithin_eq (fuel) (i) : t.book.ruleIdsWithin fuel i = s.book.ruleIdsWithin fuel i := by
  induction fuel generalizing i with
  | zero => rfl
  | succ fuel ih =>
    unfold ruleIdsWithin
    rw [h.routine_eq, funext ih]

lemma ruleIds_eq (i) : t.book.ruleIds i = s.book.ruleIds i := by
  unfold ruleIds
  rw [h.routines, h.ruleIdsWithin_eq]

lemma rulesOf_eq (i) : t.book.rulesOf i = s.book.rulesOf i := by
  unfold rulesOf
  rw [h.ruleIds_eq, funext h.rule_eq]

end SameRules

/-! ### Small steps -/

namespace Shape

@[simp] lemma on_ask (f : Buffer → Except Fault α) (s) : (ask f).on s = (f s.buffer, s) := by
  rw [ask, on_get_bind, on_ofExcept]

lemma on_ask_ok {f} {s} {a : α} (h : f s.buffer = .ok a) :
    (ask f).on s = (.ok a, s) := by
  rw [on_ask, h]

lemma on_ask_bind {f} {g : α → Shape β} {s t} {b}
    (h : (ask f >>= g).on s = (.ok b, t)) : ∃ a, f s.buffer = .ok a ∧ (g a).on s = (.ok b, t) := by
  obtain ⟨a, u, hask, h⟩ := on_bind_eq_ok h
  rw [on_ask] at hask
  obtain ⟨ha, rfl⟩ := Prod.mk.inj hask
  exact ⟨a, ha, h⟩

@[simp] lemma on_buffer (s) : buffer.on s = (.ok s.buffer, s) := rfl

@[simp] lemma on_onBuffer (f) (s) :
    (onBuffer f).on s = (.ok (), { s with buffer := f s.buffer }) := rfl

@[simp] lemma on_warn (text) (s) :
    (warn text).on s = (.ok (), { s with book := s.book.warn text }) := rfl

@[simp] lemma on_sayDetail (text) (s) :
    (sayDetail text).on s = (.ok (), { s with remarks := s.remarks.push { text, isDetail := true } }) := rfl

section Quiet
variable {R : Session → Session → Prop} [OfQuiet R]

@[grind ←] lemma warn_quiet (text) : Keeps R (warn text) := fun _ => OfQuiet.of_quiet ⟨⟨rfl, rfl, rfl⟩, rfl⟩

@[grind ←] lemma sayDetail_quiet (text) : Keeps R (sayDetail text) :=
  fun _ => OfQuiet.of_quiet ⟨⟨rfl, rfl, rfl⟩, rfl⟩

@[grind ←] lemma ask_quiet (f : Buffer → Except Fault α) : Keeps R (ask f) := by
  intro s
  rw [on_ask]
  exact Std.Refl.refl s

@[grind ←] lemma buffer_quiet : Keeps R buffer := Std.Refl.refl

variable [Trans R R R]

@[grind ←] lemma write_quiet (r) : Keeps R (write r) := by
  unfold write
  grind

@[grind ←] lemma wouldApply_quiet (classes) (r) (at_) : Keeps R (wouldApply classes r at_) := by
  unfold wouldApply
  grind

@[grind ←] lemma glyphAt_quiet (at_) : Keeps R (glyphAt at_) := by
  unfold glyphAt
  grind

@[grind ←] lemma prepared_quiet (i) : Keeps R (prepared i) := by
  unfold prepared
  grind

@[grind ←] lemma preparedInFont_quiet (i) : Keeps R (preparedInFont i) := by
  unfold preparedInFont
  grind

@[grind ←] lemma choice_quiet (input output) (at_) : Keeps R (choice input output at_) := by
  unfold choice
  grind

@[grind ←] lemma likeItem_quiet (at_) (slot) (multiplied ligated) :
    Keeps R (likeItem at_ slot multiplied ligated) := by
  unfold likeItem
  grind

lemma skips_quiet (stage) (r) : Keeps R (skips stage r) := by
  unfold skips
  grind

end Quiet

/-! ### Looking at the buffer anew, and placing -/

section SameGlyphs
variable {R : Session → Session → Prop} [OfSameGlyphs R]

lemma onBuffer_sameGlyphs (hi : ∀ b, (f b).items.map Item.core = b.items.map Item.core)
    (hf : ∀ b, (f b).feature = b.feature) : Keeps R (onBuffer f) :=
  fun s => OfSameGlyphs.of_sameGlyphs ⟨⟨rfl, rfl, rfl⟩, hi s.buffer, hf s.buffer⟩

lemma alter_sameGlyphs (index) {f} (h : ∀ i, (f i).core = i.core) :
    Keeps R (onBuffer fun b => b.alter index f) := by
  refine onBuffer_sameGlyphs (fun b => List.ext_getElem? ?_) fun _ => rfl
  simp only [Buffer.alter, List.getElem?_map]
  grind

lemma setPosition_core (i : Item) (p) : (i.setPosition p).core = i.core := rfl

variable [Trans R R R]

@[grind ←] lemma remask_sameGlyphs : Keeps R remask := by
  have settled (b : Buffer) : b.settleFlags.items = b.items ∧ b.settleFlags.feature = b.feature := by
    unfold Buffer.settleFlags
    split <;> exact ⟨rfl, rfl⟩
  exact .bind (onBuffer_sameGlyphs (fun b => by rw [(settled b).1]) fun b => (settled b).2) fun _ =>
    .bind (ask_quiet _) fun v => onBuffer_sameGlyphs (fun _ => rfl) fun _ => rfl

@[grind ←] lemma setMask_sameGlyphs (flags) (filter attach) :
    Keeps R (setMask flags filter attach) :=
  .bind (onBuffer_sameGlyphs (fun _ => rfl) fun _ => rfl) fun _ => remask_sameGlyphs

@[grind ←] lemma recategorise_sameGlyphs (index) : Keeps R (recategorise index) := by
  refine .bind get fun s => ?_
  split
  · exact .pure _
  · exact .bind (.forM _ fun _ _ => warn_quiet _) fun _ => alter_sameGlyphs index fun _ => rfl

@[grind ←] lemma update_sameGlyphs : Keeps R update := by
  unfold update
  grind

@[grind ←] lemma addPosition_sameGlyphs (index) (v) : Keeps R (addPosition index v) := by
  refine .bind (ask_quiet _) fun item => .bind (.ofExcept _) fun p => ?_
  split
  · exact .throw _
  · refine .bind (alter_sameGlyphs index fun i => setPosition_core i _) fun _ => ?_
    split
    · exact .throw _
    · exact .pure _

@[grind ←] lemma position_sameGlyphs (at_) (f) :
    Keeps R (position at_ f) :=
  .bind (ask_quiet _) fun index => .bind (ask_quiet _) fun _ => .bind (.ofExcept _) fun _ =>
    alter_sameGlyphs index fun i => setPosition_core i _

@[grind ←] lemma place_sameGlyphs (p) (at_) : Keeps R (place p at_) := by
  unfold place
  grind

@[grind ←] lemma hang_sameGlyphs (at_) (kind) (distance) : Keeps R (hang at_ kind distance) :=
  .bind (ask_quiet _) fun index => alter_sameGlyphs index fun _ => rfl

@[grind ←] lemma joinCursive_sameGlyphs (a) (flags) (at_) : Keeps R (joinCursive a flags at_) := by
  refine .bind (glyphAt_quiet _) fun _ => .bind (glyphAt_quiet _) fun _ => ?_
  split
  · refine .bind (ask_quiet _) fun _ => .bind (.ofExcept _) fun _ => .bind (.ofExcept _) fun _ =>
      .bind (position_sameGlyphs _ _) fun _ => ?_
    grind
  · exact pure ()

@[grind ←] lemma hangMark_sameGlyphs (a) (at_) : Keeps R (hangMark a at_) := by
  refine .bind (ask_quiet _) fun _ => .bind (glyphAt_quiet _) fun _ => ?_
  split
  · exact throw _
  · grind

@[grind ←] lemma attach_sameGlyphs (a) (flags) (at_) : Keeps R (attach a flags at_) := by
  unfold attach
  grind

end SameGlyphs

/-! ### Applying -/

@[grind ←] lemma onBuffer_sameRules (f) : Keeps SameRules (onBuffer f) := fun _ => ⟨rfl, rfl, rfl⟩

/-- Items are replaced one at a time. -/
lemma replaceOne_keeps [OfQuiet R] [Trans R R R]
    (h : ∀ index f, Keeps R (onBuffer fun b => b.alter index f)) (classes) (input output) (at_) :
    Keeps R (replaceOne classes input output at_) := by
  refine .bind (choice_quiet _ _ at_) fun _ => .bind (ask_quiet _) fun _ => .bind buffer_quiet fun b => ?_
  split
  · exact .throw _
  · refine .bind (prepared_quiet _) fun p => .bind (h _ _) fun _ => ?_
    split
    · exact .throw _
    · exact .pure _

@[grind ←] lemma substitute_sameRules (classes) (s) (at_) :
    Keeps SameRules (substitute classes s at_) := by
  have one := replaceOne_keeps fun index f => onBuffer_sameRules fun b => b.alter index f
  unfold substitute
  grind

section Chain
variable {apply : Rule → Int → Shape (Option Int)} (happly : ∀ r at_, Keeps SameRules (apply r at_))
include happly

lemma tryRules_sameRules (classes) (filter) (index) (rules) :
    Keeps SameRules (tryRules apply classes filter index rules) := by
  induction rules with
  | nil => exact pure ()
  | cons r rest ih =>
    unfold tryRules
    grind

lemma callAll_sameRules (classes) (index) (calls) :
    Keeps SameRules (callAll apply classes index calls) := by
  induction calls with
  | nil => exact pure ()
  | cons l rest ih =>
    unfold callAll
    grind [tryRules_sameRules]

lemma chain_sameRules (classes) (c) (at_) :
    Keeps SameRules (chain apply classes c at_) := by
  unfold chain
  grind [callAll_sameRules]

end Chain

lemma apply_sameRules (depth) (classes) (r) (at_) :
    Keeps SameRules (apply depth classes r at_) := by
  induction depth generalizing classes r at_ with
  | zero => exact throw _
  | succ depth ih =>
    unfold apply
    grind [chain_sameRules]

end Shape
end GlyphRules.Shaping
