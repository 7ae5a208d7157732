import GlyphRules.Proofs.Shaping.Rewriting

/-! The sweep of a routine, step by step.

If a rule fits where the rest begins, the buffer is rewritten there and the place moves on behind
what was written, else by one glyph. After each pass, what is done stands before the place and the
rest behind it (`Stands`), so the passes are the steps of `rewriteFrom` (`applyRoutine_rewrites`). A
substitution with calls of its own has no written form, and a routine that tries it fails. -/
namespace GlyphRules.Shaping

open Step List Rewrite Keeps

variable {s start t : Session} {done glyphs rest : List String} {font : Font} {r : Rule} {i : Item}
  {g : String} {n : Nat} {items : List Item} {sub : Substitution} {stage : Option Stage} {ids : List RuleId}

/-- No item is passed over, for the feature that is asked for or the one in force. -/
abbrev Unmasked (s : Session) (feature : Option String) : Prop :=
  ∀ f, f ≠ "" → feature = some f ∨ s.buffer.feature = some f → ∀ i ∈ s.buffer.items, i.isMasked f = false

lemma none_ne_pos : none ≠ some Stage.pos := (Option.some_ne_none _).symm

/-! ### Looking at the buffer -/

def MasksFrom (s t : Session) : Prop := ∀ i ∈ t.buffer.items, ∃ j ∈ s.buffer.items, i.masks = j.masks

instance : Trans MasksFrom MasksFrom MasksFrom where
  trans h k i hi := by
    obtain ⟨j, hj, hij⟩ := k i hi
    obtain ⟨x, hx, hjx⟩ := h j hj
    exact ⟨x, hx, hij.trans hjx⟩

lemma MasksFrom.unmasked (h : MasksFrom s t) {f} (hclear : ∀ i ∈ s.buffer.items, i.isMasked f = false) :
    ∀ i ∈ t.buffer.items, i.isMasked f = false := by
  intro i hi
  obtain ⟨j, hj, hmasks⟩ := h i hi
  have := hclear j hj
  unfold Item.isMasked at this ⊢
  rwa [hmasks]

lemma SameGlyphs.masksFrom (h : SameGlyphs s t) : MasksFrom s t := by
  intro i hi
  have : i.core ∈ s.buffer.items.map Item.core := h.items ▸ mem_map_of_mem hi
  obtain ⟨j, hj, hcore⟩ := mem_map.1 this
  exact ⟨j, hj, (congrArg Prod.snd hcore).symm⟩

instance : OfSameGlyphs MasksFrom := ⟨SameGlyphs.masksFrom⟩

lemma SameGlyphs.clear (h : SameGlyphs s t) (hclear : s.buffer.Clear) : t.buffer.Clear :=
  fun f hf hne => h.masksFrom.unmasked (hclear f (h.feature ▸ hf) hne)

lemma SameGlyphs.spells (h : SameGlyphs s t) (hspells : Spells s.buffer.items glyphs) :
    Spells t.buffer.items glyphs := by
  have names := congrArg (List.map Prod.fst) h.items
  simp only [map_map] at names
  exact names.trans hspells

namespace Shape

lemma remask_clear (hflags : s.buffer.flags.counts = false) (hclear : s.buffer.Clear) :
    ∃ t, remask.on s = (.ok (), t) ∧ t.buffer.Whole ∧ t.buffer.flags = .bits 0 := by
  have settled : s.buffer.settleFlags = { s.buffer with flags := .bits 0 } := by
    simp [Buffer.settleFlags, hflags]
  obtain ⟨v, hv, hplaces⟩ := Buffer.visible_clear (b := { s.buffer with flags := .bits 0 }) rfl hclear
  rw [remask, on_bind_ok (on_onBuffer _ s), settled, on_bind_ok (on_ask_ok hv)]
  exact ⟨_, rfl, hplaces, rfl⟩

lemma setMask_clear (hflags : flags.counts = false) (hclear : s.buffer.Clear)
    (filter attach) :
    ∃ t, (setMask flags filter attach).on s = (.ok (), t) ∧ t.buffer.Whole ∧ t.buffer.flags = .bits 0 := by
  rw [setMask, on_bind_ok (on_onBuffer _ s)]
  exact remask_clear hflags hclear

lemma recategorise_ok (index) (s) : ∃ t, (recategorise index).on s = (.ok (), t) := by
  rw [recategorise, on_get_bind]
  split
  · exact ⟨s, rfl⟩
  · obtain ⟨t, ht⟩ := on_forM_ok (fun w s => ⟨_, on_warn w s⟩) _ s
    rw [on_bind_ok ht]
    exact ⟨_, rfl⟩

def SameFlags (s t : Session) : Prop := t.buffer.flags = s.buffer.flags

instance : OfQuiet SameFlags := ⟨fun h => by rw [SameFlags, h.buffer]⟩

instance : Trans SameFlags SameFlags SameFlags := ⟨fun h k => k.trans h⟩

lemma recategorise_sameFlags (index) : Keeps SameFlags (recategorise index) := by
  refine .bind get fun s => ?_
  split
  · exact pure ()
  · exact .bind (.forM _ fun _ _ => warn_quiet _) fun _ => fun _ => rfl

lemma update_clear (hflags : s.buffer.flags = .bits 0) (hclear : s.buffer.Clear) :
    ∃ t, update.on s = (.ok (), t) ∧ t.buffer.Whole := by
  obtain ⟨u, hu⟩ := on_forM_ok recategorise_ok (List.range s.buffer.items.length) s
  have same : SameFlags s u := (forM _ fun n _ => recategorise_sameFlags n).of_on hu
  have kept : SameGlyphs s u := of_on (.forM _ fun n _ => recategorise_sameGlyphs n) hu
  have hu' : u.buffer.flags.counts = false := by rw [same, hflags]; rfl
  obtain ⟨t, ht, hwhole, -⟩ := remask_clear hu' (kept.clear hclear)
  rw [update, on_bind_ok (on_buffer s), on_bind_ok hu]
  exact ⟨t, ht, hwhole⟩

/-! ### Testing a rule -/

lemma write_text (h : ∀ b, ∃ text, Feature.ruleText b r = .ok text) (s) :
    ∃ text t, (write r).on s = (.ok text, t) := by
  unfold write
  obtain ⟨t, ht⟩ := on_forM_ok (fun w s => ⟨_, on_warn w s⟩) (Feature.ruleWarning? r).toList s
  obtain ⟨text, htext⟩ := h t.book
  rw [on_bind_ok ht, on_get_bind, htext]
  exact ⟨text, t, rfl⟩

lemma ruleMatches_eq (h : ∀ a, r.body ≠ .attachment a) (b) (classes) (at_) :
    ruleMatches b classes r at_ = slotsMatch b classes r at_ := by
  unfold ruleMatches
  split
  · next a ha => exact absurd ha (h a)
  · rfl

lemma wouldApply_reads (classes) (h : Reads r) (hwrite : ∃ text t, (write r).on s = (.ok text, t))
    (hsees : s.buffer.Sees (done ++ rest)) :
    ∃ t, (wouldApply classes r done.length).on s = (.ok ((ofRule r).fitsBetween done rest), t) := by
  obtain ⟨text, t, ht⟩ := hwrite
  have same : t.buffer = s.buffer := ((write_quiet r).of_on ht : Quiet s t).buffer
  obtain ⟨v, hv, hfits⟩ := slotsMatch_eq hsees classes h
  have verdict : ruleMatches t.buffer classes r done.length = .ok v := by
    rw [ruleMatches_eq h.slots, same, hv]
  rw [wouldApply, on_bind_ok ht, on_bind_ok (on_sayDetail _ t), on_bind_ok (on_ask_ok verdict)]
  obtain ⟨u, hu⟩ := on_forM_ok (fun w s => ⟨_, on_sayDetail w s⟩) v.remarks _
  rw [on_bind_ok hu, hfits]
  exact ⟨u, rfl⟩

/-! ### Applying a rule -/

/-- The buffer reads as said, and no item has masks that none had before. -/
structure Rewritten (s t : Session) (glyphs : List String) : Prop where
  spells : Spells t.buffer.items glyphs
  masks : MasksFrom s t
  flags : t.buffer.flags = s.buffer.flags
  feature : t.buffer.feature = s.buffer.feature

lemma Rewritten.clear (h : Rewritten s t glyphs) (hclear : s.buffer.Clear) : t.buffer.Clear :=
  fun f hf hne => h.masks.unmasked (hclear f (h.feature ▸ hf) hne)

/-- The rules are those of the start, the buffer reads as said, and no item in it is masked. -/
structure Holds (start s : Session) (glyphs : List String) : Prop where
  rules : SameRules start s
  spells : Spells s.buffer.items glyphs
  clear : s.buffer.Clear
  masks : MasksFrom start s

lemma Holds.seen (h : Holds start s glyphs) (hs : SameGlyphs s t) : Holds start t glyphs :=
  ⟨Trans.trans h.rules hs.toSameRules, hs.spells h.spells, hs.clear h.clear, Trans.trans h.masks hs.masksFrom⟩

lemma Holds.rewritten (h : Holds start s done) (hrules : SameRules s t) (hs : Rewritten s t glyphs) :
    Holds start t glyphs :=
  ⟨Trans.trans h.rules hrules, hs.spells, hs.clear h.clear, Trans.trans h.masks hs.masks⟩

/-- An item with its category, and in the state it starts with. -/
def readyItem (s : Session) (i : Item) : Item :=
  { i with category? := some (categoryOf s.font s.characters i).1, state := some (freshState s.font i) }

lemma prepared_glyph (hi : i.glyph = some g) (hg : g ∈ s.font.names) :
    ∃ t, (prepared i).on s = (.ok (readyItem s i, none), t) := by
  obtain ⟨t, ht⟩ := on_forM_ok (fun w s => ⟨_, on_warn w s⟩) (categoryOf s.font s.characters i).2 s
  rw [prepared, on_get_bind]
  refine ⟨t, (on_bind_ok ht _).trans ?_⟩
  refine congrArg (fun f => (Except.ok (readyItem s i, f), t)) (if_pos ?_)
  unfold glyphOf? Font.find?
  rw [hi, Option.bind_some, List.find?_isSome]
  obtain ⟨x, hx, rfl⟩ := mem_map.1 hg
  exact ⟨x, hx, by simp⟩

lemma mapM_likeItem {output} (hi : s.buffer.get n = .ok i) (houtput : Glyphs s.font output)
    (multiplied ligated) :
    ∃ new t, (output.mapM fun slot => likeItem n slot multiplied ligated).on s = (.ok new, t) ∧
      t.buffer = s.buffer ∧ new.map Item.core = (output.map (·.headD "")).map fun g => (some g, i.masks) := by
  induction output generalizing s with
  | nil => exact ⟨[], s, rfl, rfl, rfl⟩
  | cons slot rest ih =>
    obtain ⟨hne, hglyphs⟩ := houtput slot (.head _)
    obtain ⟨g, slot, rfl⟩ := exists_cons_of_ne_nil hne
    obtain ⟨j, t, ht, hj⟩ : ∃ j t, (likeItem n (g :: slot) multiplied ligated).on s = (.ok j, t) ∧
        j.core = (some g, i.masks) := by
      obtain ⟨t, ht⟩ := prepared_glyph (i := { i with glyph := some g }) rfl (hglyphs g (.head _)).1
      unfold likeItem preparedInFont
      rw [on_bind_ok (on_ask_ok hi), on_bind_ok (on_bind_ok ht _)]
      exact ⟨_, t, rfl, rfl⟩
    have quiet : Quiet s t := (likeItem_quiet _ _ _ _).of_on ht
    obtain ⟨new, u, hu, same, hnew⟩ := ih (by rw [quiet.buffer, hi])
      (by rw [quiet.font]; exact fun slot hslot => houtput slot (.tail _ hslot))
    rw [mapM_cons, on_bind_ok ht, on_bind_ok hu]
    exact ⟨j :: new, u, rfl, same.trans quiet.buffer, by simp [hj, hnew]⟩

section Substitute

lemma length_of_spells (h : Spells items glyphs) : items.length = glyphs.length := by
  simpa using congrArg List.length h

lemma item_of_spells (h : Spells items (done ++ g :: rest)) :
    ∃ i, items[done.length]? = some i ∧ i.glyph = some g := by
  have : (items.map (·.glyph))[done.length]? = some (some g) := by
    rw [h]
    simp
  rwa [List.getElem?_map, Option.map_eq_some_iff] at this

section
variable {i o : Slot} (hg : g ∈ i) (hlength : o.length = 1 ∨ i.length ≤ o.length)
include hg hlength

/-- A class that stands for a class has a glyph for each of its glyphs. -/
lemma getElem?_counterpart (hne : ∀ x, o = [x] → False) : o[i.idxOf g]? = some (o.getD (i.idxOf g) "") := by
  have hlt : i.idxOf g < o.length := by
    have := idxOf_lt_length_of_mem hg
    rcases hlength with h | h
    · obtain ⟨x, hx⟩ := length_eq_one_iff.1 h
      exact absurd hx (hne x)
    · omega
  rw [getD_eq_getElem?_getD, List.getElem?_eq_getElem hlt]
  rfl

lemma counterpart_mem : counterpart i o g ∈ o := by
  unfold counterpart
  split
  · simp
  · next hne => exact mem_of_getElem? (getElem?_counterpart hg hlength hne)

end

lemma choice_eq {i o} (hglyph : (glyphAt n).on s = (.ok (some g), s)) (hg : g ∈ i)
    (hlength : o.length = 1 ∨ i.length ≤ o.length) : (choice i o n).on s = (.ok (counterpart i o g), s) := by
  unfold choice counterpart
  split
  · rfl
  · next hne =>
    have hidx : i.idxOf? g = some (i.idxOf g) := by
      obtain ⟨k, hk⟩ := Option.isSome_iff_exists.1 (isSome_idxOf?.2 hg)
      rw [idxOf_eq_getD_idxOf?, hk]
      rfl
    rw [on_bind_ok hglyph]
    simp only [Option.bind_some, hidx, getElem?_counterpart hg hlength hne]
    rfl

/-- Prepare the item at an index: nothing else in the buffer changes. -/
lemma prepareAt_glyph (hi : s.buffer.items[n]? = some i) (hg : g ∈ s.font.names) :
    ∃ t, (prepareAt n fun i => { i with glyph := some g }).on s = (.ok (), t) ∧
      t.buffer = { s.buffer with items := s.buffer.items.set n (readyItem s { i with glyph := some g }) } := by
  obtain ⟨t, ht⟩ := prepared_glyph (i := { i with glyph := some g }) rfl hg
  have same : t.buffer = s.buffer := ((prepared_quiet _).of_on ht : Quiet s t).buffer
  rw [prepareAt, on_bind_ok (on_buffer s)]
  simp only [hi]
  rw [on_bind_ok ht]
  refine ⟨_, rfl, ?_⟩
  simp only [same, Buffer.alter, modify_eq_set]

lemma replaceOne_eq (classes) {i o} (hwhole : s.buffer.Whole)
    (hspells : Spells s.buffer.items (done ++ g :: rest)) (hg : g ∈ i) (hlength : o.length = 1 ∨ i.length ≤ o.length)
    (hi : Glyphs s.font [i]) (ho : Glyphs s.font [o]) :
    ∃ t, (replaceOne classes i o done.length).on s = (.ok (), t) ∧
      Rewritten s t (done ++ counterpart i o g :: rest) := by
  have plain {slot} (h : Glyphs s.font [slot]) : expandSlot classes slot = slot :=
    expandSlot_glyphs classes (h.unclassed slot (mem_singleton_self _))
  obtain ⟨item, hitem, hglyph⟩ := item_of_spells hspells
  have hlt : done.length < s.buffer.items.length := (List.getElem?_eq_some_iff.1 hitem).1
  have read : (glyphAt done.length).on s = (.ok (some g), s) := by
    rw [glyphAt, on_bind_ok (on_ask_ok (hwhole.get hitem)), hglyph]
    rfl
  obtain ⟨t, ht, hbuffer⟩ := prepareAt_glyph hitem ((ho o (by simp)).2 _ (counterpart_mem hg hlength)).1
  rw [replaceOne, plain hi, plain ho, on_bind_ok (choice_eq read hg hlength), on_bind_ok (on_ask_ok (hwhole.indexOf hlt))]
  refine ⟨t, ht, ?_, ?_, by rw [hbuffer], by rw [hbuffer]⟩
  · rw [hbuffer, Spells, map_set, hspells]
    simp [readyItem]
  · intro x hx
    rw [hbuffer] at hx
    rcases mem_or_eq_of_mem_set hx with hx | rfl
    · exact ⟨x, hx, rfl⟩
    · exact ⟨item, mem_of_getElem? hitem, rfl⟩

/-- One item in the place of several, or several in the place of one. -/
lemma setSlice_new (hwhole : s.buffer.Whole) (hspells : Spells s.buffer.items (done ++ rest))
    (hi : i ∈ s.buffer.items) (hnew : items.map Item.core = new.map fun g => (some g, i.masks)) (hpos : 0 < n)
    (hn : n ≤ rest.length) (hone : n = 1 ∨ new.length = 1) (ht : t.buffer = s.buffer) :
    ∃ b, t.buffer.setSlice done.length (done.length + n : Nat) items = .ok b ∧
      Rewritten s { t with buffer := b } (done ++ new ++ rest.drop n) := by
  have hlength : items.length = new.length := by simpa using congrArg List.length hnew
  have hbound : done.length + n ≤ s.buffer.items.length := by
    rw [length_of_spells hspells, length_append]
    omega
  rw [ht, hwhole.setSlice hpos hbound (hlength ▸ hone)]
  refine ⟨_, rfl, ?_, ?_, rfl, rfl⟩
  · have hglyphs : Spells items new := by
      have := congrArg (List.map Prod.fst) hnew
      simp only [map_map] at this
      exact this
    simp only [Spells, map_append, map_take, map_drop, hglyphs, hspells]
    simp [drop_append]
  · intro x hx
    simp only [mem_append] at hx
    rcases hx with (hx | hx) | hx
    · exact ⟨x, mem_of_mem_take hx, rfl⟩
    · have : x.core ∈ items.map Item.core := mem_map_of_mem hx
      rw [hnew] at this
      obtain ⟨g, -, hg⟩ := mem_map.1 this
      exact ⟨i, hi, (congrArg Prod.snd hg).symm⟩
    · exact ⟨x, mem_of_mem_drop hx, rfl⟩

end Substitute

/-- Several slots for one, or one for several: every slot is written as its first glyph. -/
lemma substitute_row (classes) {input output} (hi : sub.input = some input)
    (ho : sub.replacement = some output) (hmany : ¬(input.length = 1 ∧ output.length = 1))
    (hone : input.length = 1 ∨ output.length = 1) (hpos : 0 < input.length) (hn : input.length ≤ rest.length)
    (hglyphs : Glyphs s.font output) (hwhole : s.buffer.Whole) (hspells : Spells s.buffer.items (done ++ rest)) :
    ∃ t, (substitute classes sub done.length).on s =
        (.ok (if output.length > 1 then some (output.length - 1 : Int) else none), t) ∧
      Rewritten s t (done ++ output.map (·.headD "") ++ rest.drop input.length) := by
  unfold substitute
  simp only [hi, ho]
  split
  · simp at hmany
  · obtain ⟨g, tail, rfl⟩ := exists_cons_of_ne_nil (length_pos_iff.1 (Nat.lt_of_lt_of_le hpos hn))
    obtain ⟨item, hitem, -⟩ := item_of_spells hspells
    rw [on_bind_ok (on_ask_ok (hwhole.shows.slice _ _))]
    obtain ⟨new, t, ht, same, hnew⟩ := mapM_likeItem (hwhole.get hitem) hglyphs _ _
    obtain ⟨b, hb, hrewritten⟩ := setSlice_new hwhole hspells (mem_of_getElem? hitem) hnew hpos hn
      (by simpa using hone) same
    rw [on_bind_ok ht, on_bind_ok (on_ask_ok hb)]
    exact ⟨_, rfl, hrewritten⟩

/-- **A rule that fits is applied as its rewriting says**, and the place moves on behind what
it has written. -/
lemma substitute_rewriting (classes) (h : IsRewriting s.font r) (hsub : r.body = .substitution sub)
    (hwhole : s.buffer.Whole) (hspells : Spells s.buffer.items (done ++ rest))
    (hfits : (ofRule r).fitsBetween done rest) :
    ∃ moved t, (substitute classes sub done.length).on s = (.ok moved, t) ∧
      Rewritten s t (done ++ (ofRule r).written (rest.take (ofRule r).input.length) ++
        rest.drop (ofRule r).input.length) ∧
      (done.length : Int) + moved.getD 0 + 1 = (done ++
        (ofRule r).written (rest.take (ofRule r).input.length)).length := by
  obtain ⟨sub', hsub', hi, ho, -⟩ := h.sides
  cases hsub.symm.trans hsub'
  have hshape := h.shape
  have hinput := h.input
  have houtput := h.output
  have hfills : fills (rest.take (ofRule r).input.length) (ofRule r).input = true := by
    simp only [fitsBetween, Bool.and_eq_true] at hfits
    exact hfits.1.1.2
  generalize ofRule r = w at hi ho hshape hinput houtput hfills ⊢
  obtain ⟨before, input, after, output⟩ := w
  have hn : input.length ≤ rest.length := by
    have := fills_length hfills
    simp at this
    omega
  simp only at hi ho hshape hinput houtput hfills hn ⊢
  cases hshape with
  | @single i o hlength =>
    obtain ⟨g, tail, rfl⟩ := exists_cons_of_ne_nil (length_pos_iff.1 hn)
    have hg : g ∈ i := by simpa [fills] using hfills
    obtain ⟨t, ht, hrewritten⟩ := replaceOne_eq classes hwhole hspells hg hlength hinput houtput
    refine ⟨none, t, ?_, ?_, ?_⟩
    · unfold substitute
      simp only [hi, ho]
      rw [on_bind_ok ht]
      rfl
    · simpa [written] using hrewritten
    · simp [written]
  | @ligature _ o hlength =>
    obtain ⟨t, ht, hrewritten⟩ := substitute_row classes hi ho (by omega) (by simp) (by omega) hn houtput
      hwhole hspells
    have hwritten : written ⟨before, input, after, [o]⟩ (rest.take input.length) = [o].map (·.headD "") := by
      obtain ⟨_, _, _, rfl⟩ := exists_cons_cons hlength
      rfl
    refine ⟨_, t, ht, hwritten ▸ hrewritten, ?_⟩
    rw [hwritten]
    simp
  | @multiple i _ hlength =>
    obtain ⟨t, ht, hrewritten⟩ := substitute_row classes hi ho (by omega) (by simp) (by simp) hn houtput
      hwhole hspells
    have hwritten : written ⟨before, [i], after, output⟩ (rest.take 1) = output.map (·.headD "") := by
      obtain ⟨_, _, _, rfl⟩ := exists_cons_cons hlength
      rfl
    refine ⟨_, t, ht, hwritten ▸ hrewritten, ?_⟩
    rw [length_singleton, hwritten, if_pos (by omega)]
    simp
    omega

/-! ### The sweep -/

/-- Before a pass: what is done stands before the place, the rest behind it, all of it visible. -/
structure Stands (start s : Session) (done rest : List String) : Prop where
  rules : SameRules start s
  spells : Spells s.buffer.items (done ++ rest)
  whole : s.buffer.Whole
  clear : s.buffer.Clear
  masks : MasksFrom start s

lemma Stands.holds (h : Stands start s done rest) : Holds start s (done ++ rest) := ⟨h.rules, h.spells, h.clear, h.masks⟩

lemma Holds.stands (h : Holds start s (done ++ rest)) (hwhole : s.buffer.Whole) : Stands start s done rest :=
  ⟨h.rules, h.spells, hwhole, h.clear, h.masks⟩

lemma Stands.quiet (h : Stands start s done rest) (hs : Quiet s t) : Stands start t done rest :=
  (h.holds.seen hs.sameGlyphs).stands (hs.buffer ▸ h.whole)

lemma Stands.all (h : Stands start s done []) : Spells s.buffer.items done := by
  simpa using h.spells

lemma Stands.size (h : Stands start s done rest) : s.buffer.view.size = done.length + rest.length := by
  rw [h.whole.size_eq, length_of_spells h.spells, length_append]

lemma setMask_stands (hflags : flags.counts = false) (h : Holds start s (done ++ rest))
    (filter attach) :
    ∃ t, (setMask flags filter attach).on s = (.ok (), t) ∧ Stands start t done rest ∧ t.buffer.flags = .bits 0 := by
  obtain ⟨t, ht, hwhole, hbits⟩ := setMask_clear hflags h.clear filter attach
  exact ⟨t, ht, (h.seen ((setMask_sameGlyphs _ _ _).of_on ht)).stands hwhole, hbits⟩

lemma apply_substitution (depth) (classes) (hsub : r.body = .substitution sub) (at_) :
    apply (depth + 1) classes r at_ = substitute classes sub at_ := by
  simp only [apply, hsub]

section
variable (classes : Classes)
include classes

/-- A rule that has been applied is noted, and all of the buffer comes into view. -/
lemma applyAt_ready (id) (rule) (n : Nat) (hwrite : ∃ text t, (write r).on s = (.ok text, t)) :
    ∃ u, Quiet s u ∧ ∀ {moved v done rest}, (apply chainDepth classes r n).on u = (.ok moved, v) →
      Holds start v (done ++ rest) → v.buffer.flags = .bits 0 →
        ∃ t, (applyAt classes id rule r n).on s = (.ok (moved.getD 0), t) ∧ Stands start t done rest := by
  obtain ⟨text, s₁, h₁⟩ := hwrite
  have h₂ := on_sayDetail ("Applying rule " ++ text ++ " at position " ++ toString n ++ "\n") s₁
  have written : Quiet s s₁ := (write_quiet r).of_on h₁
  refine ⟨_, (sayDetail_quiet _).after written h₂, ?_⟩
  intro moved v done rest hv holds hflags
  obtain ⟨t, ht, hwhole⟩ := update_clear (s := { v with applied := (id, rule) :: v.applied }) hflags holds.clear
  obtain ⟨same, items, feature⟩ : SameGlyphs _ t := update_sameGlyphs.of_on ht
  refine ⟨t, ?_, (holds.seen ⟨⟨same.rules, same.routines, same.font⟩, items, feature⟩).stands hwhole⟩
  rw [applyAt, on_bind_ok h₁, on_bind_ok h₂, on_bind_ok hv, on_bind_ok (on_modify _ v), on_bind_ok ht]
  rfl

lemma applyAt_rewriting (id) (rule) (h : IsRewriting start.font r)
    (hs : Stands start s done rest) (hflags : s.buffer.flags = .bits 0)
    (hfits : (ofRule r).fitsBetween done rest) :
    ∃ moved t, (applyAt classes id rule r done.length).on s = (.ok moved, t) ∧
      Stands start t (next (some (ofRule r)) done rest).1 (next (some (ofRule r)) done rest).2 ∧
      (done.length : Int) + moved + 1 = (next (some (ofRule r)) done rest).1.length := by
  obtain ⟨sub, hsub, -⟩ := h.sides
  obtain ⟨u, quiet, applied⟩ := applyAt_ready classes id rule done.length (write_text h.text s)
  have stands := hs.quiet quiet
  obtain ⟨moved, v, hv, rewritten, hmoved⟩ := substitute_rewriting classes (stands.rules.font ▸ h) hsub stands.whole
    stands.spells hfits
  have left := stands.holds.rewritten ((substitute_sameRules _ _ _).of_on hv) rewritten
  rw [show chainDepth = 899 + 1 from rfl, apply_substitution _ _ hsub] at applied
  obtain ⟨t, ht, hleft⟩ := applied hv left (by rw [rewritten.flags, quiet.buffer, hflags])
  exact ⟨_, t, ht, hleft, hmoved⟩

omit classes in
lemma skips_substitution (hsub : r.body = .substitution sub) (hstage : stage ≠ some .pos) (s : Session) :
    (skips stage r).on s = (.ok false, s) := by
  unfold skips Book.ruleStage
  cases stage with
  | none => rfl
  | some stage =>
    cases stage with
    | pos => exact absurd rfl hstage
    | sub =>
      rw [on_get_bind, hsub]
      rfl

/-- A rule is tried: it is applied if it fits, and otherwise the rules after it are tried. -/
lemma tryAt_reads (stage) (id) (routine) (rule) (ids)
    (hskip : (skips stage (start.book.rule rule)).on s = (.ok false, s)) (hreads : Reads (start.book.rule rule))
    (hflags : (start.book.rule rule).flags.counts = false)
    (hwrite : ∀ u, SameRules start u → ∃ text t, (write (start.book.rule rule)).on u = (.ok text, t))
    (hs : Stands start s done rest) :
    ∃ t, Stands start t done rest ∧ t.buffer.flags = .bits 0 ∧
      (tryAt classes stage id routine done.length (rule :: ids)).on s =
        (if (ofRule (start.book.rule rule)).fitsBetween done rest then
          applyAt classes id rule (start.book.rule rule) done.length
        else tryAt classes stage id routine done.length ids).on t := by
  obtain ⟨u, hu, stands, hbits⟩ := setMask_stands hflags hs.holds routine.markFilteringSet routine.markAttachmentSet
  obtain ⟨t, ht⟩ := wouldApply_reads classes hreads (hwrite u stands.rules) (stands.whole.sees stands.spells)
  have quiet : Quiet u t := (wouldApply_quiet _ _ _).of_on ht
  refine ⟨t, stands.quiet quiet, quiet.buffer ▸ hbits, ?_⟩
  conv_lhs => unfold tryAt
  rw [on_get_bind]
  simp only [hs.rules.rule_eq rule]
  rw [on_bind_ok hskip]
  simp only [Bool.false_eq_true, if_false]
  rw [on_bind_ok hu, on_bind_ok ht]

/-- **One place of the sweep is one step of the rewriting.** -/
lemma tryAt_rewriting (id) (routine) (hstage : stage ≠ some .pos)
    (hids : ∀ i ∈ ids, IsRewriting start.font (start.book.rule i)) (hs : Stands start s done rest) (hrest : rest ≠ []) :
    ∃ moved t, (tryAt classes stage id routine done.length ids).on s = (.ok moved, t) ∧
      let found := (ids.map fun i => ofRule (start.book.rule i)).find? (·.fitsBetween done rest)
      Stands start t (next found done rest).1 (next found done rest).2 ∧
        (done.length : Int) + moved + 1 = (next found done rest).1.length := by
  induction ids generalizing s with
  | nil =>
    obtain ⟨g, tail, rfl⟩ := exists_cons_of_ne_nil hrest
    refine ⟨0, s, rfl, ⟨hs.rules, ?_, hs.whole, hs.clear, hs.masks⟩, by simp [Rewrite.next]⟩
    simpa [Rewrite.next] using hs.spells
  | cons rule ids ih =>
    have hrule := hids rule (.head _)
    obtain ⟨sub, hsub, -⟩ := hrule.sides
    obtain ⟨t, ht, hflags, htry⟩ := tryAt_reads classes stage id routine rule ids
      (skips_substitution hsub hstage s) hrule.reads hrule.flags (fun u _ => write_text hrule.text u) hs
    rw [htry]
    cases hfits : (ofRule (start.book.rule rule)).fitsBetween done rest with
    | true =>
      simp only [map_cons, List.find?_cons, hfits]
      exact applyAt_rewriting classes id rule hrule ht hflags hfits
    | false =>
      simp only [map_cons, List.find?_cons, hfits]
      exact ih (fun i hi => hids i (.tail _ hi)) ht

lemma pass_stop (stage) (id) (routine) (ids)
    (hs : Stands start s done []) (hn : done.length ≤ n) :
    (pass classes stage id routine ids n).on s = (.ok none, s) := by
  rw [pass, on_bind_ok (on_buffer s), if_neg (by simpa [hs.size] using hn)]
  rfl

end

lemma pass_moves {id} {routine} {moved} (hs : Stands start s done rest)
    (hrest : rest ≠ []) (ht : (tryAt classes stage id routine done.length ids).on s = (.ok moved, t))
    (hmoved : (done.length : Int) + moved + 1 = n) :
    (pass classes stage id routine ids done.length).on s = (.ok (some n), t) := by
  have hsize := hs.size
  have := length_pos_iff.2 hrest
  rw [pass, on_bind_ok (on_buffer s), if_pos (by omega), on_bind_ok ht, hmoved]
  rfl

/-- The whole sweep, from any place of it. The rest gets shorter with every pass. -/
lemma loop_stands (classes) (id) (routine) (hstage : stage ≠ some .pos)
    (hids : ∀ i ∈ ids, IsRewriting start.font (start.book.rule i)) (hs : Stands start s done rest) :
    ∃ t, loop (pass classes stage id routine ids) done.length s = some (.ok (), t) ∧
      Stands start t (rewriteFrom (ids.map fun i => ofRule (start.book.rule i)) done rest) [] := by
  induction hn : rest.length using Nat.strongRecOn generalizing s done rest with
  | _ n ih =>
    by_cases hrest : rest = []
    · subst hrest
      exact ⟨s, loop_stop (pass_stop classes stage id routine ids hs (Nat.le_refl _)), by rwa [rewriteFrom]⟩
    · obtain ⟨moved, t, ht, hstands, hmoved⟩ := tryAt_rewriting classes id routine hstage hids hs hrest
      rw [loop_next (pass_moves hs hrest ht hmoved), rewriteFrom_next _ _ hrest]
      exact ih _ (hn ▸ length_next_lt _ _ hrest) hstands rfl

lemma enter_clear {feature}
    (hflags : routine.flags.counts = false) (hspells : Spells s.buffer.items glyphs)
    (hclear : Unmasked s feature) :
    ∃ t, (enter routine feature).on s = (.ok (), t) ∧ Stands s t [] glyphs := by
  have holds : Holds s s ([] ++ glyphs) :=
    ⟨Std.Refl.refl s, hspells, fun f hf hne => hclear f hne (.inr hf), Std.Refl.refl s⟩
  obtain ⟨t, ht, stands, hbits⟩ := setMask_stands hflags holds routine.markFilteringSet routine.markAttachmentSet
  unfold enter
  rw [on_bind_ok ht]
  split
  · exact ⟨t, rfl, stands⟩
  · exact ⟨t, rfl, stands⟩
  · next f hne =>
    have marked : Holds s { t with buffer := { t.buffer with feature := some f } } ([] ++ glyphs) := by
      refine ⟨⟨stands.rules.rules, stands.rules.routines, stands.rules.font⟩, stands.spells, ?_, stands.masks⟩
      intro f' hf hne'
      cases hf
      exact stands.masks.unmasked (hclear f hne' (.inl rfl))
    have bits : t.buffer.flags.counts = false := by
      rw [hbits]
      rfl
    obtain ⟨u, hu, hwhole, -⟩ := remask_clear (s := { t with buffer := { t.buffer with feature := some f } }) bits
      marked.clear
    exact ⟨u, hu, (marked.seen (remask_sameGlyphs.of_on hu)).stands hwhole⟩

lemma applyRoutine_on {feature} {id}
    {result} (henter : (enter (s.book.routine id) feature).on s = (.ok (), t))
    (hloop : loop (pass classes stage id (s.book.routine id) (s.book.ruleIds id)) 0 t = some result) :
    (applyRoutine classes stage feature id).on s = result := by
  rw [applyRoutine, on_get_bind, on_bind_ok henter]
  exact congrArg (Option.getD · _) hloop

lemma applyRoutine_stands (classes) {feature} {id} (hstage : stage ≠ some .pos)
    (hrules : ∀ r ∈ s.book.rulesOf id, IsRewriting s.font r) (hflags : (s.book.routine id).flags.counts = false)
    (hspells : Spells s.buffer.items glyphs) (hclear : Unmasked s feature) :
    ∃ t, (applyRoutine classes stage feature id).on s = (.ok (), t) ∧
      Stands s t (rewriteFrom ((s.book.rulesOf id).map ofRule) [] glyphs) [] := by
  obtain ⟨u, hu, hstands⟩ := enter_clear hflags hspells hclear
  obtain ⟨t, ht, hleft⟩ := loop_stands classes id (s.book.routine id) hstage
    (fun i hi => hrules _ (mem_map_of_mem hi)) hstands
  rw [Book.rulesOf, map_map]
  exact ⟨t, applyRoutine_on hu ht, hleft⟩

/-- A routine fails where it tries a rule that cannot be written. -/
lemma applyRoutine_refused (classes) {id} {rule} {fault}
    (hroutine : (s.book.routine id).flags.counts = false) (hspells : Spells s.buffer.items glyphs)
    (hclear : Unmasked s none)
    (hids : s.book.ruleIds id = rule :: ids) (hflags : (s.book.rule rule).flags.counts = false)
    (hwrite : ∀ v, (write (s.book.rule rule)).on v = (.error fault, v)) (hne : glyphs ≠ []) :
    ((applyRoutine classes none none id).on s).1 = .error fault := by
  obtain ⟨u, hu, hstands⟩ := enter_clear hroutine hspells hclear
  obtain ⟨v, hv, -⟩ := setMask_clear hflags hstands.clear (s.book.routine id).markFilteringSet
    (s.book.routine id).markAttachmentSet
  have tested : (wouldApply classes (s.book.rule rule) (0)).on v = (.error fault, v) :=
    on_bind_error (hwrite v) _
  have fails : (pass classes none id (s.book.routine id) (rule :: ids) 0).on u = (.error fault, v) := by
    have hsize : 0 < u.buffer.view.size := by
      rw [hstands.size]
      exact Nat.add_pos_right _ (length_pos_iff.2 hne)
    unfold pass tryAt skips
    rw [on_bind_ok (on_buffer u), if_pos hsize]
    apply on_bind_error
    rw [on_get_bind]
    simp only [hstands.rules.rule_eq rule]
    rw [on_bind_ok (on_pure false u)]
    simp only [Bool.false_eq_true, if_false]
    rw [on_bind_ok hv]
    exact on_bind_error tested _
  rw [applyRoutine_on hu (hids ▸ loop_fail fails)]

end Shape

/-- **A routine of rewriting rules rewrites the buffer.** -/
theorem applyRoutine_rewrites (classes : Classes) {stage : Option Stage} {feature : Option String}
    {id : RoutineId} {s : Session} {glyphs : List String} (hstage : stage ≠ some .pos)
    (hroutine : (s.book.routine id).flags.counts = false)
    (hrules : ∀ r ∈ s.book.rulesOf id, IsRewriting s.font r)
    (hglyphs : s.buffer.items.map (·.glyph) = glyphs.map some)
    (hclear : ∀ f, f ≠ "" → feature = some f ∨ s.buffer.feature = some f → ∀ i ∈ s.buffer.items, i.isMasked f = false) :
    ∃ t, (Shape.applyRoutine classes stage feature id).on s = (.ok (), t) ∧ t.buffer.items.map (·.glyph) =
        (rewriteFrom ((s.book.rulesOf id).map Rewrite.ofRule) [] glyphs).map some := by
  obtain ⟨t, ht, hleft⟩ := Shape.applyRoutine_stands classes hstage hrules hroutine hglyphs hclear
  exact ⟨t, ht, hleft.all⟩

section Sample

/-- Seven glyphs without width. -/
def sampleFont : Font := ⟨["a", "b", "c", "f", "i", "f_i", "x"].map fun name => { name }⟩

/-- A ligature, a class for a class behind the ligature, and one glyph for two before a third. -/
def sampleRules : List Substitution :=
  [{ input := some [["f"], ["i"]], replacement := some [["f_i"]] },
   { input := some [["a", "b"]], replacement := some [["b", "a"]], before := [["f_i"]] },
   { input := some [["a"]], replacement := some [["b"], ["a", "x"]], after := [["c"]] }]

def sampleSession (rules : List Substitution) (glyphs : List String) : Session :=
  { book :=
      { routines := #[{ content := .rules (List.range rules.length) }]
        rules := (rules.map fun s => Rule.ofBody (.substitution s)).toArray }
    font := sampleFont
    characters := {}
    buffer := { items := glyphs.map fun g => { glyph := some g } } }

theorem applyRoutine_rewrites_sample :
    ∃ t, (Shape.applyRoutine [] none none 0).on (sampleSession sampleRules ["f", "i", "a", "a", "c"]) = (.ok (), t) ∧
      t.buffer.items.map (·.glyph) = ["f_i", "b", "b", "a", "c"].map some := by
  have glyphs : ["f_i", "b", "b", "a", "c"] = rewriteFrom
      (((sampleSession sampleRules ["f", "i", "a", "a", "c"]).book.rulesOf 0).map Rewrite.ofRule) []
      ["f", "i", "a", "a", "c"] := by
    cbv
  rw [glyphs]
  exact applyRoutine_rewrites [] (by decide) (by decide) (by decide +kernel) rfl
    (by rintro f - (hf | hf) <;> cases hf)

/-- A substitution that calls a routine, even an empty one. -/
def callingRule : Substitution :=
  { input := some [["a"]], replacement := some [["b"]], calls := [some [.ref ⟨some (some "none"), some 1⟩]] }

lemma write_calling (s) : (Shape.write (Rule.ofBody (.substitution callingRule))).on s =
    (.error (.unsupported .useChain), s) := rfl

/-- **A substitution with calls is refused where it is tried**, though its slots could be rewritten. -/
theorem applyRoutine_calls : ((Shape.applyRoutine [] none none 0).on (sampleSession [callingRule] ["a"])).1 =
        .error (.unsupported .useChain) ∧
      rewriteFrom (((sampleSession [callingRule] ["a"]).book.rulesOf 0).map Rewrite.ofRule) [] ["a"] = ["b"] := by
  refine ⟨?_, by cbv⟩
  have glyphs : Spells (sampleSession [callingRule] ["a"]).buffer.items ["a"] := rfl
  exact Shape.applyRoutine_refused [] rfl glyphs (by rintro f - (hf | hf) <;> cases hf) rfl rfl write_calling
    (List.cons_ne_nil _ _)

end Sample
end GlyphRules.Shaping
