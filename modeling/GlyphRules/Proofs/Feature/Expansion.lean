import GlyphRules.Proofs.Shaping.Effect

/-! Classes written out row by row.

A substitution with classes may become a block of statements, one for each row of the classes. In
shaping it takes any glyphs of its classes together, and writes the first glyph of every slot. So
the two say the same only where every combination of glyphs is a row, whose first writes what the
first row of all writes (`expansion_shapes_iff`). -/
namespace GlyphRules.Feature

open Step Shaping Statement Option
open Shape (applyRoutine Poised)
open Rewrite (effect fitsBetween_free written)
open List hiding after

variable {input output slots : List Slot} {m n : Nat} {s : Substitution} {q : List String}

/-! ### Statements read back -/

def GlyphRef.slot : GlyphRef → Slot
  | .name g => [g]
  | .members gs => gs

/-- The substitution that a statement stands for, if it is one for a ligature or for several glyphs. -/
def Statement.substitution? : Statement → Option Substitution
  | .multiple before glyph after output =>
    some { input := some [glyph.slot]
           replacement := some (output.map GlyphRef.slot)
           before := before.map GlyphRef.slot
           after := after.map GlyphRef.slot }
  | .ligature before input after output =>
    some { input := some (input.map GlyphRef.slot)
           replacement := some [output.slot]
           before := before.map GlyphRef.slot
           after := after.map GlyphRef.slot }
  | _ => none

/-- The substitution of one row: single glyphs for single glyphs. -/
def rowSubstitution (input output : List Slot) (m : Nat) : Substitution :=
  { input := some ((row input m).map ([·])), replacement := some ((row output m).map ([·])) }

/-! ### Rows -/

lemma row_append (a b) (m) : row (a ++ b) m = row a m ++ row b m := map_append

lemma length_row (slots) (m) : (row slots m).length = slots.length := length_map _

lemma row_class (h : slot.length ≠ 1) (m) : row [slot] m = [slot.getD m ""] := by
  cases slot with
  | nil => rfl
  | cons g rest =>
    cases rest with
    | nil => exact absurd rfl h
    | cons => rfl

lemma row_singles (h : ∀ slot ∈ slots, slot.length = 1) (m) : (row slots m).map ([·]) = slots := by
  induction slots with
  | nil => rfl
  | cons slot slots ih =>
    obtain ⟨g, rfl⟩ := length_eq_one_iff.1 (h slot (.head _))
    have rest := ih fun slot hslot => h slot (.tail _ hslot)
    exact congrArg ([g] :: ·) rest

lemma row_zero : row slots 0 = slots.map (·.headD "") := by
  refine map_congr_left fun slot _ => ?_
  cases slot with
  | nil => rfl
  | cons g rest => cases rest <;> rfl

/-- A rule whose classes go together row by row: of one length, and not one slot for one. -/
structure Paired (input output : List Slot) (n : Nat) : Prop where
  shape : 2 ≤ input.length ∧ output.length = 1 ∨ input.length = 1 ∧ 2 ≤ output.length
  slots : ∀ slot ∈ input ++ output, slot.length = 1 ∨ slot.length = n
  rows : 0 < n

lemma fills_row (h : ∀ slot ∈ slots, slot.length = 1 ∨ slot.length = n) (hm : m < n) :
    fills (row slots m) slots = true := by
  induction slots with
  | nil => rfl
  | cons slot slots ih =>
    have rest := ih fun slot hslot => h slot (.tail _ hslot)
    by_cases hone : slot.length = 1
    · obtain ⟨g, rfl⟩ := length_eq_one_iff.1 hone
      show ([g].contains g && fills (row slots m) slots) = true
      simp [rest]
    · have hlt : m < slot.length := by
        rwa [(h slot (.head _)).resolve_left hone]
      have hrow : row (slot :: slots) m = slot.getD m "" :: row slots m := by
        rw [show slot :: slots = [slot] ++ slots from rfl, row_append, row_class hone]
        rfl
      rw [hrow, fills, rest, getD_eq_getElem?_getD, getElem?_eq_getElem hlt]
      simp

/-! ### The statements of a block -/

lemma foldl_same (hnone : f none n = some n) (hsome : f (some n) n = some n)
    {ls} (h : ∀ l ∈ ls, l = n) : ls.foldl f none = if ls = [] then none else some n := by
  have from_ (ls : List Nat) (h : ∀ l ∈ ls, l = n) : ls.foldl f (some n) = some n := by
    induction ls with
    | nil => rfl
    | cons l ls ih =>
      obtain rfl := h l (.head _)
      rw [foldl_cons, hsome]
      exact ih fun l hl => h l (.tail _ hl)
  cases ls with
  | nil => rfl
  | cons l ls =>
    obtain rfl := h l (.head _)
    rw [foldl_cons, hnone, from_ ls fun l hl => h l (.tail _ hl)]
    rfl

lemma rowCount?_eq (h : ∀ l ∈ classLengths slots, l = n) :
    rowCount? slots = if classLengths slots = [] then none else some n :=
  foldl_same rfl (congrArg some (Nat.min_self n)) h

lemma mem_classLengths : l ∈ classLengths slots ↔ ∃ slot ∈ slots, slot.length = l ∧ l ≠ 1 := by
  simp only [classLengths, mem_filter, List.mem_map, bne_iff_ne]
  constructor
  · rintro ⟨⟨slot, hslot, rfl⟩, hne⟩
    exact ⟨slot, hslot, rfl, hne⟩
  · rintro ⟨slot, hslot, rfl, hne⟩
    exact ⟨⟨slot, hslot, rfl⟩, hne⟩

lemma equalClasses_iff (hslot : slot ∈ input ++ output) (hclass : slot.length ≠ 1)
    (h : equalClasses input output) : ∀ l ∈ classLengths input ++ classLengths output, l = slot.length := by
  have hmem : slot.length ∈ classLengths input ++ classLengths output := by
    rcases mem_append.1 hslot with hslot | hslot
    · exact mem_append_left _ (mem_classLengths.2 ⟨slot, hslot, rfl, hclass⟩)
    · exact mem_append_right _ (mem_classLengths.2 ⟨slot, hslot, rfl, hclass⟩)
  unfold equalClasses at h
  split at h
  · next hnil => simp [hnil] at hmem
  · next n rest hcons =>
    have same : ∀ l ∈ classLengths input ++ classLengths output, l = n := by
      rw [hcons]
      simpa using h
    intro l hl
    rw [same l hl, same _ hmem]

lemma mapM_some {α β : Type} {f} {g : α → β} {l : List α} (h : ∀ a ∈ l, f a = some (g a)) :
    l.mapM f = some (l.map g) := by
  induction l with
  | nil => rfl
  | cons a l ih =>
    rw [mapM_cons, h a (.head _), ih fun a ha => h a (.tail _ ha)]
    rfl

lemma pairedLigatures_rows {o : Slot} (hbefore : s.before = []) (hafter : s.after = []) (hinput : 2 ≤ input.length)
    (ho : o ≠ []) (hclass : o.length ≠ 1) (hequal : equalClasses input [o]) : Paired input [o] o.length ∧
      (pairedLigatures s input [o]).mapM substitution? =
        some ((List.range o.length).map (rowSubstitution input [o])) := by
  have same := equalClasses_iff (by simp) hclass hequal
  have hout : classLengths [o] = [o.length] := by simp [classLengths, hclass]
  have count : rowCount? input = none ∨ rowCount? input = some o.length := by
    rw [rowCount?_eq fun l hl => same l (mem_append_left _ hl)]
    split
    · exact .inl rfl
    · exact .inr rfl
  have countOut : rowCount? [o] = some o.length := by
    rw [rowCount?_eq fun l hl => same l (mem_append_right _ hl), hout]
    rfl
  have hne : input.isEmpty = false := by
    cases input with
    | nil => cases hinput
    | cons => rfl
  refine ⟨⟨.inl ⟨hinput, rfl⟩, fun slot hslot => ?_, length_pos_iff.2 ho⟩, ?_⟩
  · by_cases hone : slot.length = 1
    · exact .inl hone
    · refine .inr (same _ ?_)
      rcases mem_append.1 hslot with hslot | hslot
      · exact mem_append_left _ (mem_classLengths.2 ⟨slot, hslot, rfl, hone⟩)
      · exact mem_append_right _ (mem_classLengths.2 ⟨slot, hslot, rfl, hone⟩)
  · have body : pairedLigatures s input [o] = (List.range o.length).map fun m =>
        .ligature [] ((row input m).map .name) [] (.name (o.getD m "")) := by
      unfold pairedLigatures
      rcases count with hcount | hcount <;> simp [hcount, countOut, hbefore, hafter, hne, row_class hclass]
    rw [body, mapM_map]
    refine mapM_some fun m _ => ?_
    rw [rowSubstitution, row_class hclass]
    simp [substitution?, GlyphRef.slot]

lemma zipWith_eq_range {α : Type} (f : String → String → α) {a b} (h : a.length = b.length) :
    zipWith f a b = (List.range a.length).map fun m => f (a.getD m "") (b.getD m "") := by
  refine ext_getElem (by simp [h]) fun m hm hm' => ?_
  have ha : m < a.length := by simpa using hm'
  simp [getElem?_eq_getElem ha, getElem?_eq_getElem (h ▸ ha)]

lemma classLengths_append (a b) : classLengths (a ++ b) = classLengths a ++ classLengths b := by
  simp [classLengths]

lemma classLengths_eq_nil : classLengths slots = [] ↔ ∀ slot ∈ slots, slot.length = 1 := by
  simp [classLengths]

/-- Where one class goes with one, it stands among single glyphs. -/
lemma paired_split (h : isPaired [i] output) (houtput : Named output) :
    i.length ≠ 1 ∧ ∃ front slot back, output = front ++ slot :: back ∧
      output.findIdx? (·.length > 1) = some front.length ∧ slot.length = i.length ∧
      (∀ s ∈ front, s.length = 1) ∧ ∀ s ∈ back, s.length = 1 := by
  obtain ⟨n, slot, hn, hslot, hlength, hone⟩ := paired_class h houtput
  obtain ⟨hlt, rfl⟩ := List.getElem?_eq_some_iff.1 hslot
  have hi : i.length ≠ 1 := by
    intro hi
    unfold isPaired at h
    simp [classLengths, hi] at h
  have parts : output = output.take n ++ output[n] :: output.drop (n + 1) := by simp
  have hclass : classLengths [output[n]] = [i.length] := by simp [classLengths, hlength, hi]
  have count : classLengths output =
      classLengths (output.take n) ++ ([i.length] ++ classLengths (output.drop (n + 1))) := by
    conv_lhs => rw [parts, classLengths_append, show output[n] :: output.drop (n + 1) = [output[n]] ++
      output.drop (n + 1) from rfl, classLengths_append, hclass]
  rw [count] at hone
  simp only [length_append, length_singleton] at hone
  refine ⟨hi, output.take n, output[n], output.drop (n + 1), parts, ?_, hlength, ?_, ?_⟩
  · rw [hn, length_take, Nat.min_eq_left (Nat.le_of_lt hlt)]
  · exact classLengths_eq_nil.1 (length_eq_zero_iff.1 (by omega))
  · exact classLengths_eq_nil.1 (length_eq_zero_iff.1 (by omega))

lemma slot_slotRef (h : ∀ slot ∈ slots, slot.length = 1) : (slots.map slotRef).map GlyphRef.slot = slots := by
  rw [List.map_map]
  refine (map_congr_left fun slot hslot => ?_).trans (map_id slots)
  obtain ⟨g, rfl⟩ := length_eq_one_iff.1 (h slot hslot)
  rfl

lemma pairedMultiples_rows {i : Slot} {body} (hbefore : s.before = []) (hafter : s.after = [])
    (houtput : 2 ≤ output.length) (hi : i ≠ []) (hnamed : Named output) (hpaired : isPaired [i] output)
    (hbody : pairedMultiples s [i] output = .ok body) : Paired [i] output i.length ∧
      body.mapM substitution? = some ((List.range i.length).map (rowSubstitution [i] output)) := by
  obtain ⟨hclass, front, slot, back, rfl, hfind, hlength, hfront, hback⟩ := paired_split hpaired hnamed
  refine ⟨⟨.inr ⟨rfl, houtput⟩, fun s hs => ?_, length_pos_iff.2 hi⟩, ?_⟩
  · simp only [mem_append, mem_cons, not_mem_nil, or_false] at hs
    rcases hs with rfl | hs | rfl | hs
    · exact .inr rfl
    · exact .inl (hfront s hs)
    · exact .inr hlength
    · exact .inl (hback s hs)
  · have rows : body = (List.range i.length).map fun m => .multiple [] (.name (i.getD m "")) []
        (front.map slotRef ++ [.name (slot.getD m "")] ++ back.map slotRef) := by
      have singles : (front ++ slot :: back).length = ((front ++ slot :: back).filter (·.length == 1)).length + 1 := by
        have hne : (slot.length == 1) = false := by simpa [hlength] using hclass
        rw [filter_append, filter_cons, hne, filter_eq_self.2 (by simpa using hfront),
          filter_eq_self.2 (by simpa using hback)]
        simp
        omega
      have hslot : (front ++ slot :: back)[front.length]? = some slot := by simp
      refine Eq.trans ?_ (zipWith_eq_range (fun f t => multiple [] (.name f) []
        (front.map slotRef ++ [.name t] ++ back.map slotRef)) hlength.symm)
      unfold pairedMultiples at hbody
      simp only [hfind, getD_some, getD_eq_getElem?_getD, hslot, hlength] at hbody
      rw [if_neg (by rw [singles]; simp), if_neg (by simp)] at hbody
      refine (Except.ok.inj hbody).symm.trans ?_
      simp [hbefore, hafter]
    rw [rows, mapM_map]
    refine mapM_some fun m _ => ?_
    have hrow : (row (front ++ slot :: back) m).map ([·]) = front ++ [slot.getD m ""] :: back := by
      rw [show front ++ slot :: back = front ++ ([slot] ++ back) from rfl, row_append, row_append,
        row_class (hlength ▸ hclass), map_append, map_append, row_singles hfront, row_singles hback]
      rfl
    rw [rowSubstitution, hrow, row_class hclass]
    simp only [Function.comp, substitution?, map_append, slot_slotRef hfront, slot_slotRef hback]
    simp [GlyphRef.slot]

/-- **A block is the rows of a rule**: where a rule without contexts becomes a block of statements, they stand for
its rows in order. -/
lemma block_rows (hi : s.input = some input) (ho : s.replacement = some output)
    (hshape : SlotShape input output) (hreversal : s.reversal.counts = false) (hcalls : s.calls.anyGiven = false)
    (hinput : Named input) (houtput : Named output) (hbefore : s.before = []) (hafter : s.after = [])
    (hblock : ofSubstitution s = .ok (.block body)) :
    ∃ n, Paired input output n ∧
      body.mapM substitution? = some ((List.range n).map (rowSubstitution input output)) := by
  obtain ⟨type, htype, hcases⟩ := lookupType_of_shape hi ho hshape hreversal hcalls
  unfold ofSubstitution at hblock
  simp only [htype, ok_bind, hi, ho, getD_some] at hblock
  rcases hcases with ⟨rfl | rfl, hi1, ho1⟩ | ⟨rfl, hi2, ho1⟩ | ⟨rfl, hi1, ho2⟩
  · obtain ⟨o, rfl⟩ := length_eq_one_iff.1 ho1
    cases hblock
  · obtain ⟨i, rfl⟩ := length_eq_one_iff.1 hi1
    obtain ⟨o, rfl⟩ := length_eq_one_iff.1 ho1
    cases hblock
  · obtain ⟨o, rfl⟩ := length_eq_one_iff.1 ho1
    simp only [ofSlots] at hblock
    split at hblock
    · next hclasses =>
      cases hblock
      simp only [Bool.and_eq_true, bne_iff_ne] at hclasses
      exact ⟨_, pairedLigatures_rows hbefore hafter hi2 (houtput o (by simp)).1 hclasses.2 hclasses.1.2⟩
    · cases hblock
  · obtain ⟨i, rfl⟩ := length_eq_one_iff.1 hi1
    obtain ⟨o, o', rest, rfl⟩ := exists_cons_cons ho2
    simp only [ofSlots] at hblock
    split at hblock
    · next hpaired =>
      obtain ⟨body', hbody, heq⟩ := bind_eq_ok.1 hblock
      cases heq
      exact ⟨_, pairedMultiples_rows hbefore hafter ho2 (hinput i (by simp)).1 houtput hpaired hbody⟩
    · cases hblock

/-! ### A rule and its rows -/

def rowRewrite (input output : List Slot) (m : Nat) : Rewrite :=
  ⟨[], (row input m).map ([·]), [], (row output m).map ([·])⟩

lemma fills_singles (q l) : fills q (l.map ([·])) = (q == l) := by
  induction q generalizing l with
  | nil => cases l <;> rfl
  | cons g q ih =>
    cases l with
    | nil => rfl
    | cons x l =>
      rw [map_cons, fills, ih, Bool.eq_iff_iff]
      simp

namespace Paired

section
variable (h : Paired input output n)
include h

lemma input_ne_nil : input ≠ [] := by
  rintro rfl
  rcases h.shape with ⟨h, -⟩ | ⟨h, -⟩ <;> cases h

/-- Unless one slot stands for one, every slot is written as its first glyph. -/
lemma written_eq (before after) (q) :
    (⟨before, input, after, output⟩ : Rewrite).written q = row output 0 := by
  rw [row_zero]
  unfold written
  split
  · next hi ho =>
    subst hi ho
    rcases h.shape with ⟨h, -⟩ | ⟨-, h⟩ <;> simp at h
  · rfl

lemma each_row (m) : Paired ((row input m).map ([·])) ((row output m).map ([·])) n where
  shape := by simpa [length_row] using h.shape
  slots slot hslot := by
    rw [← map_append] at hslot
    obtain ⟨g, -, rfl⟩ := mem_map.1 hslot
    exact .inl rfl
  rows := h.rows

lemma effect_rule (done rest) : effect [⟨[], input, [], output⟩] done rest =
      if fills (rest.take input.length) input then some (row output 0, input.length) else none := by
  have fits := fitsBetween_free (w := ⟨[], input, [], output⟩) rfl rfl h.input_ne_nil done rest
  rw [effect, find?_singleton, fits]
  split
  · rw [map_some, h.written_eq]
  · rfl

lemma effect_rows (done rest) :
    effect ((List.range n).map (rowRewrite input output)) done rest =
      ((List.range n).find? fun m => rest.take input.length == row input m).map fun m =>
        (row output m, input.length) := by
  have fits m : (rowRewrite input output m).fitsBetween done rest =
      (rest.take input.length == row input m) := by
    have := fitsBetween_free (w := rowRewrite input output m) rfl rfl (h.each_row m).input_ne_nil done rest
    rwa [show (rowRewrite input output m).input = (row input m).map ([·]) from rfl, fills_singles,
      length_map, length_row] at this
  have writes m q : (rowRewrite input output m).written q = row output m := by
    refine ((h.each_row m).written_eq [] [] q).trans ?_
    rw [row_zero, List.map_map]
    exact map_id _
  have reads m : (rowRewrite input output m).input.length = input.length := by
    simp [rowRewrite, length_row]
  rw [effect, List.find?_map, Option.map_map]
  simp only [Function.comp_def, fits, writes, reads]

end

/-- Glyphs that the rule reads are read by a row, and the first row that reads them writes what the
first row of all writes. -/
def SameRow (input output : List Slot) (n : Nat) (q : List String) : Prop :=
  ∃ m < n, row input m = q ∧ (∀ l < m, row input l ≠ q) ∧ row output m = row output 0

lemma find?_row : ((List.range n).find? fun m => q == row input m) = some m ↔
      m < n ∧ row input m = q ∧ ∀ l < m, row input l ≠ q := by
  rw [find?_range_eq_some]
  simp only [mem_range, beq_iff_eq, Bool.not_eq_true', beq_eq_false_iff_ne]
  constructor
  · rintro ⟨hq, hm, hfirst⟩
    exact ⟨hm, hq.symm, fun l hl => (hfirst l hl).symm⟩
  · rintro ⟨hm, hq, hfirst⟩
    exact ⟨hq.symm, hm, fun l hl => (hfirst l hl).symm⟩

lemma step_eq (h : Paired input output n) (hsame : ∀ q, fills q input → SameRow input output n q)
    (done rest) : (effect [⟨[], input, [], output⟩]).step done rest =
      (effect ((List.range n).map (rowRewrite input output))).step done rest := by
  have agree : effect [⟨[], input, [], output⟩] done rest =
      effect ((List.range n).map (rowRewrite input output)) done rest := by
    rw [h.effect_rule, h.effect_rows]
    split
    · next hfills =>
      obtain ⟨m, hm, hrow, hfirst, hwrites⟩ := hsame _ hfills
      rw [find?_row.2 ⟨hm, hrow, hfirst⟩, map_some, hwrites]
    · next hnot =>
      cases hfind : (List.range n).find? fun m => rest.take input.length == row input m with
      | none => rfl
      | some m =>
        obtain ⟨hm, hrow, -⟩ := find?_row.1 hfind
        refine absurd ?_ hnot
        rw [← hrow]
        exact fills_row (fun slot hslot => h.slots slot (mem_append_left _ hslot)) hm
  unfold Effect.step
  rw [agree]

/-- On glyphs that the rule reads, it leaves the first glyphs of its output. The rows leave what the first that
reads them writes; if none does, they leave the glyphs, which are not as many. -/
lemma sameRow_of_sweep (h : Paired input output n) (hq : fills q input)
    (hsweep : sweep (effect [⟨[], input, [], output⟩]) [] q =
      sweep (effect ((List.range n).map (rowRewrite input output))) [] q) : SameRow input output n q := by
  have hlength : q.length = input.length := fills_length hq
  have hne : q ≠ [] := by
    rintro rfl
    exact h.input_ne_nil (length_eq_zero_iff.1 hlength.symm)
  have htake : q.take input.length = q := by rw [← hlength, take_length]
  have rule : sweep (effect [⟨[], input, [], output⟩]) [] q = [] ++ row output 0 :=
    sweep_whole hne (by rw [h.effect_rule, htake, if_pos hq, hlength])
  rw [rule, nil_append] at hsweep
  cases hfind : (List.range n).find? fun m => q == row input m with
  | some m =>
    obtain ⟨hm, hrow, hfirst⟩ := find?_row.1 hfind
    refine ⟨m, hm, hrow, hfirst, ?_⟩
    have rows : sweep (effect ((List.range n).map (rowRewrite input output))) [] q =
        [] ++ row output m :=
      sweep_whole hne (by rw [h.effect_rows, htake, hfind, map_some, hlength])
    rw [hsweep, rows, nil_append]
  | none =>
    have rows : sweep (effect ((List.range n).map (rowRewrite input output))) [] q = [] ++ q := by
      refine sweep_idle fun done rest hrest hsuffix => ?_
      rw [h.effect_rows, map_eq_none_iff]
      by_cases hall : rest = q
      · rw [hall, htake, hfind]
      · have hshort : rest.length < input.length := by
          rw [← hlength]
          exact Nat.lt_of_le_of_ne hsuffix.length_le fun heq => hall (hsuffix.eq_of_length heq)
        rw [find?_eq_none]
        intro m _ heq
        have := congrArg length (beq_iff_eq.1 heq)
        rw [length_take, length_row] at this
        omega
    have lengths := congrArg length (hsweep.trans rows)
    rw [length_row, nil_append] at lengths
    rcases h.shape with ⟨h₁, h₂⟩ | ⟨h₁, h₂⟩ <;> omega

end Paired

lemma glyphs_of_fills (hslots : Glyphs font slots) (hq : fills q slots) :
    Glyphs font (q.map ([·])) := by
  induction q generalizing slots with
  | nil => exact fun slot hslot => nomatch hslot
  | cons g q ih =>
    cases slots with
    | nil => cases hq
    | cons s slots =>
      rw [fills, Bool.and_eq_true, contains_iff_mem] at hq
      refine forall_mem_cons.2 ⟨⟨cons_ne_nil _ _, fun x hx => ?_⟩, ?_⟩
      · obtain rfl := mem_singleton.1 hx
        exact (hslots s (.head _)).2 x hq.1
      · exact ih (fun slot hslot => hslots slot (.tail _ hslot)) hq.2

lemma isRewriting_row (h : Paired input output n) (hm : m < n) (hinput : Glyphs font input)
    (houtput : Glyphs font output) :
    IsRewriting font (Rule.ofBody (.substitution (rowSubstitution input output m))) := by
  have shape : SlotShape ((row input m).map ([·])) ((row output m).map ([·])) := by
    rcases (h.each_row m).shape with ⟨h₁, h₂⟩ | ⟨h₁, h₂⟩
    · obtain ⟨o, ho⟩ := length_eq_one_iff.1 h₂
      rw [ho]
      exact .ligature h₁
    · obtain ⟨i, hi⟩ := length_eq_one_iff.1 h₁
      rw [hi]
      exact .multiple h₂
  have none_ : Glyphs font [] := fun slot hslot => nomatch hslot
  refine ⟨⟨_, rfl, rfl, rfl⟩, shape, none_, ?_, none_, ?_, rfl, rfl⟩
  · exact glyphs_of_fills hinput (fills_row (fun slot hslot => h.slots slot (mem_append_left _ hslot)) hm)
  · exact glyphs_of_fills houtput (fills_row (fun slot hslot => h.slots slot (mem_append_right _ hslot)) hm)

/-- **A rule with classes and its expansion shape alike exactly when** every combination of glyphs that the rule
reads is a row, and the first such row writes the first glyph of every slot. -/
theorem expansion_shapes_iff {font : Font} {r : Rule} {s : Substitution} {body : List Statement}
    (h : IsRewriting font r) (hbody : r.body = .substitution s) (hcontext : r.hasContext = false)
    (hblock : ofSubstitution s = .ok (.block body)) :
    ∃ input output n, s.input = some input ∧ s.replacement = some output ∧
      body.mapM Statement.substitution? = some ((List.range n).map (rowSubstitution input output)) ∧
      ((∀ classes stage feature glyphs id id' t t', stage ≠ some .pos → Poised feature font [r] glyphs id t →
          Poised feature font
            ((List.range n).map fun m => Rule.ofBody (.substitution (rowSubstitution input output m))) glyphs id' t' →
          ∃ u u', (applyRoutine classes stage feature id).on t = (.ok (), u) ∧
            (applyRoutine classes stage feature id').on t' = (.ok (), u') ∧
            u.buffer.items.map (·.glyph) = u'.buffer.items.map (·.glyph)) ↔
        ∀ q, fills q input = true → ∃ m < n, row input m = q ∧ (∀ l < m, row input l ≠ q) ∧
          row output m = row output 0) := by
  obtain ⟨s', hs', hi, ho, hb, ha, hreversal, hcalls⟩ := h.sides
  obtain rfl : s' = s := RuleBody.substitution.inj (hs'.symm.trans hbody)
  obtain ⟨hbefore, hafter⟩ : (Rewrite.ofRule r).before = [] ∧ (Rewrite.ofRule r).after = [] := by
    simpa [Rule.hasContext, Rewrite.ofRule] using hcontext
  obtain ⟨n, paired, hrows⟩ := block_rows hi ho h.shape hreversal hcalls h.input.named h.output.named
    (hb.trans hbefore) (ha.trans hafter) hblock
  refine ⟨_, _, n, hi, ho, hrows, ?_⟩
  -- Both runs are sweeps, by the rule and by its rows.
  have rule : [r].map Rewrite.ofRule = [⟨[], (Rewrite.ofRule r).input, [], (Rewrite.ofRule r).output⟩] := by
    refine congrArg (fun w => [w]) ?_
    calc Rewrite.ofRule r = ⟨(Rewrite.ofRule r).before, (Rewrite.ofRule r).input, (Rewrite.ofRule r).after,
        (Rewrite.ofRule r).output⟩ := rfl
      _ = ⟨[], (Rewrite.ofRule r).input, [], (Rewrite.ofRule r).output⟩ := by rw [hbefore, hafter]
  have rows : ((List.range n).map fun m => Rule.ofBody (.substitution (rowSubstitution (Rewrite.ofRule r).input
      (Rewrite.ofRule r).output m))).map Rewrite.ofRule =
      (List.range n).map (rowRewrite (Rewrite.ofRule r).input (Rewrite.ofRule r).output) := by
    rw [List.map_map]
    rfl
  have one : ∀ x ∈ [r], IsRewriting font x := fun x hx => mem_singleton.1 hx ▸ h
  have each : ∀ x ∈ (List.range n).map fun m => Rule.ofBody (.substitution (rowSubstitution
      (Rewrite.ofRule r).input (Rewrite.ofRule r).output m)), IsRewriting font x := by
    intro x hx
    obtain ⟨m, hm, rfl⟩ := mem_map.1 hx
    exact isRewriting_row paired (mem_range.1 hm) h.input h.output
  constructor
  · intro hagree q hq
    obtain ⟨u, hu, hleft⟩ := (sessionOf_poised font [r] q).applyRoutine one [] none_ne_pos
    obtain ⟨u', hu', hright⟩ := (sessionOf_poised font _ q).applyRoutine each [] none_ne_pos
    obtain ⟨v, v', hv, hv', hsame⟩ :=
      hagree [] none none q 0 0 _ _ none_ne_pos (sessionOf_poised font [r] q) (sessionOf_poised font _ q)
    obtain ⟨-, rfl⟩ := Prod.mk.inj (hu.symm.trans hv)
    obtain ⟨-, rfl⟩ := Prod.mk.inj (hu'.symm.trans hv')
    rw [hleft, hright, (map_injective_iff.2 fun _ _ => Option.some.inj).eq_iff, rule, rows] at hsame
    exact paired.sameRow_of_sweep hq hsame
  · intro hrow classes stage feature glyphs id id' t t' hstage ht ht'
    obtain ⟨u, hu, hleft⟩ := ht.applyRoutine one classes hstage
    obtain ⟨u', hu', hright⟩ := ht'.applyRoutine each classes hstage
    refine ⟨u, u', hu, hu', ?_⟩
    rw [hleft, hright, rule, rows, sweep_congr fun done rest _ => paired.step_eq hrow done rest]

section Sample

/-- Two forms of a letter, with a ligature for each. -/
def pairedFont : Font := ⟨["f", "f.alt", "i", "f_i", "f_i.alt"].map fun name => { name }⟩

/-- A ligature of either form of the letter, written as the glyph of its row. -/
def pairedSubstitution (output : Slot) : Substitution :=
  { input := some [["f", "f.alt"], ["i"]], replacement := some [output] }

def pairedRule (output : Slot) : Rule := Rule.ofBody (.substitution (pairedSubstitution output))

def pairedRows (output : Slot) : List Rule :=
  (List.range 2).map fun m => Rule.ofBody (.substitution (rowSubstitution [["f", "f.alt"], ["i"]] [output] m))

/-- With one ligature for both forms it does not matter which row is taken. -/
theorem expansion_shapes_repeated : ∃ u u',
    (applyRoutine [] none none 0).on (sessionOf pairedFont [pairedRule ["f_i", "f_i"]] ["f.alt", "i"]) =
        (.ok (), u) ∧
      (applyRoutine [] none none 0).on (sessionOf pairedFont (pairedRows ["f_i", "f_i"]) ["f.alt", "i"]) =
        (.ok (), u') ∧
      u.buffer.items.map (·.glyph) = u'.buffer.items.map (·.glyph) := by
  obtain ⟨input, output, n, hi, ho, hrows, hiff⟩ := expansion_shapes_iff
    (by decide : IsRewriting pairedFont (pairedRule ["f_i", "f_i"])) rfl rfl rfl
  obtain rfl := Option.some.inj hi
  obtain rfl := Option.some.inj ho
  obtain rfl : 2 = n := by simpa using congrArg length (Option.some.inj hrows)
  refine hiff.2 (fun q hq => ?_) [] none none _ 0 0 _ _ none_ne_pos (sessionOf_poised _ _ _) (sessionOf_poised _ _ _)
  obtain rfl | rfl : q = ["f", "i"] ∨ q = ["f.alt", "i"] := by
    obtain ⟨a, b, rfl⟩ := length_eq_two.1 (fills_length hq)
    simpa [fills, or_and_right] using hq
  · exact ⟨0, by decide, rfl, by decide, rfl⟩
  · exact ⟨1, by decide, rfl, by decide, rfl⟩

/-- **A second row is lost in shaping**: the expansion has a ligature for each form of the letter, and the rule
writes the first one for both. -/
theorem expansion_second_row :
    (IsRewriting pairedFont (pairedRule ["f_i", "f_i.alt"]) ∧ (pairedRule ["f_i", "f_i.alt"]).hasContext = false ∧
      ∃ body, ofSubstitution (pairedSubstitution ["f_i", "f_i.alt"]) = .ok (.block body) ∧
        (body.mapM Statement.substitution?).map (·.map fun s => (s.input, s.replacement)) =
          some [(some [["f"], ["i"]], some [["f_i"]]), (some [["f.alt"], ["i"]], some [["f_i.alt"]])]) ∧
      ∃ u u', (applyRoutine [] none none 0).on
            (sessionOf pairedFont [pairedRule ["f_i", "f_i.alt"]] ["f.alt", "i"]) = (.ok (), u) ∧
          (applyRoutine [] none none 0).on
            (sessionOf pairedFont (pairedRows ["f_i", "f_i.alt"]) ["f.alt", "i"]) = (.ok (), u') ∧
          u.buffer.items.map (·.glyph) = [some "f_i"] ∧ u'.buffer.items.map (·.glyph) = [some "f_i.alt"] := by
  have rewrites : IsRewriting pairedFont (pairedRule ["f_i", "f_i.alt"]) := by decide
  have rows_rewrite : ∀ r ∈ pairedRows ["f_i", "f_i.alt"], IsRewriting pairedFont r := by decide +kernel
  have rule : sweep (effect ([pairedRule ["f_i", "f_i.alt"]].map Rewrite.ofRule)) [] ["f.alt", "i"] =
      [] ++ ["f_i"] := sweep_whole (by decide) (by decide)
  have rows : sweep (effect ((pairedRows ["f_i", "f_i.alt"]).map Rewrite.ofRule)) [] ["f.alt", "i"] =
      [] ++ ["f_i.alt"] := sweep_whole (by decide) (by decide)
  obtain ⟨u, hu, hleft⟩ := (sessionOf_poised pairedFont [pairedRule ["f_i", "f_i.alt"]] ["f.alt", "i"]).applyRoutine
    (fun x hx => mem_singleton.1 hx ▸ rewrites) [] none_ne_pos
  obtain ⟨u', hu', hright⟩ := (sessionOf_poised pairedFont (pairedRows ["f_i", "f_i.alt"]) ["f.alt", "i"]).applyRoutine
    rows_rewrite [] none_ne_pos
  refine ⟨⟨rewrites, rfl, _, rfl, rfl⟩, u, u', hu, hu', ?_, ?_⟩
  · rw [hleft, rule]
    rfl
  · rw [hright, rows]
    rfl

end Sample

end GlyphRules.Feature
