import GlyphRules.Proofs.Shaping.Sweep

/-! Sweeps compared.

Whatever goes through glyphs from left to right is known by its *effect*: what it writes where the
rest begins, and how many glyphs that stands for. Rules have one (`Rewrite.effect`), and so has what
they are turned into. Effects that take the same steps make the same sweep (`sweep_congr`). For the
converse short buffers help: a sweep never takes back what it has written (`prefix_sweep`). -/
namespace GlyphRules.Shaping

open Step List Rewrite

variable {e : Effect} {done rest : List String} {w : Rewrite} {rules : List Rule} {stage : Option Stage}
  {feature : Option String} {id : RoutineId} {s : Session} {font : Font}

/-- What is done where the rest begins: the glyphs that are written, and how many they stand for. -/
abbrev Effect := List String → List String → Option (List String × Nat)

namespace Effect

/-- One step: what is written is done, and the place moves on, by one glyph if there is nothing to do. -/
def step (e : Effect) (done rest : List String) : List String × List String :=
  match e done rest with
  | some (written, n) => (done ++ written, rest.drop (max n 1))
  | none => (done ++ rest.take 1, rest.drop 1)

lemma step_some {done rest written} {n} (h : e done rest = some (written, n)) (hn : 0 < n) :
    e.step done rest = (done ++ written, rest.drop n) := by
  have hmax : max n 1 = n := Nat.max_eq_left hn
  unfold step
  simp only [h, hmax]

lemma step_none (h : e done rest = none) : e.step done rest = (done ++ rest.take 1, rest.drop 1) := by
  rw [step, h]

lemma length_step_lt (e : Effect) (done) (h : rest ≠ []) :
    (e.step done rest).2.length < rest.length := by
  have hpos := length_pos_iff.2 h
  unfold step
  split
  all_goals
    rw [length_drop]
    omega

lemma prefix_step (e : Effect) (done rest) : done <+: (e.step done rest).1 := by
  unfold step
  split <;> exact prefix_append _ _

end Effect

def sweep (e : Effect) (done rest : List String) : List String :=
  if _h : rest = [] then done else sweep e (e.step done rest).1 (e.step done rest).2
termination_by rest.length
decreasing_by exact e.length_step_lt done _h

lemma sweep_nil (e) (done) : sweep e done [] = done := by
  rw [sweep, dif_pos rfl]

lemma sweep_step (e) (done) (h : rest ≠ []) :
    sweep e done rest = sweep e (e.step done rest).1 (e.step done rest).2 := by
  rw [sweep, dif_neg h]

lemma sweep_congr (h : ∀ done rest, rest ≠ [] → e.step done rest = e'.step done rest)
    (done rest) : sweep e done rest = sweep e' done rest := by
  fun_induction sweep e done rest with
  | case1 => rw [sweep_nil]
  | case2 done rest hrest ih => rw [ih, sweep_step e' done hrest, h done rest hrest]

lemma prefix_sweep (e) (done rest) : done <+: sweep e done rest := by
  fun_induction sweep e done rest with
  | case1 => exact prefix_refl _
  | case2 done rest _ ih => exact (e.prefix_step done rest).trans ih

lemma sweep_idle (h : ∀ done' rest', rest' ≠ [] → rest' <:+ rest → e done' rest' = none) :
    sweep e done rest = done ++ rest := by
  induction rest generalizing done with
  | nil => rw [sweep_nil, append_nil]
  | cons g tail ih =>
    have hnone := h done (g :: tail) (cons_ne_nil _ _) (suffix_refl _)
    rw [sweep_step e done (cons_ne_nil g tail), Effect.step_none hnone]
    refine (ih fun done' rest' hrest hsuffix => ?_).trans (by simp)
    exact h done' rest' hrest (hsuffix.trans (suffix_cons g tail))

lemma sweep_whole {done rest written} (hrest : rest ≠ [])
    (h : e done rest = some (written, rest.length)) : sweep e done rest = done ++ written := by
  rw [sweep_step e done hrest, Effect.step_some h (length_pos_iff.2 hrest), drop_length, sweep_nil]

/-! ### The effect of rules -/

namespace Rewrite

/-- The first rule that fits is applied. -/
def effect (rules : List Rewrite) : Effect := fun done rest =>
  (rules.find? (·.fitsBetween done rest)).map fun w => (w.written (rest.take w.input.length), w.input.length)

lemma fitsBetween_iff : w.fitsBetween done rest ↔ w.input ≠ [] ∧ fills (rest.take w.input.length) w.input ∧
      fills (done.drop (done.length - w.before.length)) w.before ∧
      fills ((rest.drop w.input.length).take w.after.length) w.after = true := by
  simp [fitsBetween, and_assoc]

lemma fitsBetween_free (hbefore : w.before = []) (hafter : w.after = []) (hinput : w.input ≠ [])
    (done rest) : w.fitsBetween done rest = fills (rest.take w.input.length) w.input := by
  rw [fitsBetween, hbefore, hafter]
  simp [hinput, fills]

/-- A rule fits where nothing stands but what it reads. -/
lemma fitsBetween_window (hinput : w.input ≠ []) {p q a} (hp : fills p w.before)
    (hq : fills q w.input) (ha : fills a w.after) : w.fitsBetween p (q ++ a) = true := by
  refine fitsBetween_iff.2 ⟨hinput, ?_, ?_, ?_⟩
  · rwa [← fills_length hq, take_left]
  · rwa [← fills_length hp, Nat.sub_self]
  · rwa [← fills_length hq, drop_left, ← fills_length ha, take_length]

/-- A rule that fits still does when there is more on either side. -/
lemma fitsBetween_append {p rest} (h : w.fitsBetween p rest) (done more) :
    w.fitsBetween (done ++ p) (rest ++ more) = true := by
  obtain ⟨hinput, hq, hp, ha⟩ := fitsBetween_iff.1 h
  have hqlen := fills_length hq
  have hplen := fills_length hp
  have halen := fills_length ha
  rw [length_take] at hqlen halen
  rw [length_drop] at hplen halen
  refine fitsBetween_iff.2 ⟨hinput, ?_, ?_, ?_⟩
  · rwa [take_append_of_le_length (by omega)]
  · rw [length_append, Nat.add_sub_assoc (by omega), drop_append]
    rwa [drop_eq_nil_of_le (Nat.le_add_right _ _), Nat.add_sub_cancel_left]
  · rwa [drop_append_of_le_length (by omega), take_append_of_le_length (by rw [length_drop]; omega)]

lemma fits_of_find? {rules : List Rewrite} (h : rules.find? (·.fitsBetween done rest) = some w) :
    w.fitsBetween done rest = true := by
  simpa using List.find?_some h

lemma effect_eq_some {x} (h : effect ws done rest = some x) :
    ∃ w ∈ ws, w.fitsBetween done rest ∧ x = (w.written (rest.take w.input.length), w.input.length) := by
  obtain ⟨w, hw, rfl⟩ := Option.map_eq_some_iff.1 h
  exact ⟨w, mem_of_find?_eq_some hw, fits_of_find? hw, rfl⟩

lemma written_ne_nil (hshape : SlotShape w.input w.output) {matched}
    (hmatched : fills matched w.input) : w.written matched ≠ [] := by
  obtain ⟨before, input, after, output⟩ := w
  cases hshape with
  | single =>
    obtain ⟨g, rfl⟩ := length_eq_one_iff.1 (fills_length hmatched)
    exact cons_ne_nil _ _
  | ligature hlength =>
    obtain ⟨i, j, rest, rfl⟩ := exists_cons_cons hlength
    exact cons_ne_nil _ _
  | multiple hlength =>
    obtain ⟨o, o', rest, rfl⟩ := exists_cons_cons hlength
    exact cons_ne_nil _ _

lemma step_effect (rules) (done rest) :
    (effect rules).step done rest = next (rules.find? (·.fitsBetween done rest)) done rest := by
  cases hfound : rules.find? (·.fitsBetween done rest) with
  | none => exact Effect.step_none (by rw [effect, hfound]; rfl)
  | some w =>
    have hw : 0 < w.input.length := length_pos_iff.2 (fitsBetween_iff.1 (fits_of_find? hfound)).1
    exact Effect.step_some (by rw [effect, hfound]; rfl) hw

end Rewrite

lemma rewriteFrom_eq_sweep (rules) (done rest) :
    rewriteFrom rules done rest = sweep (effect rules) done rest := by
  fun_induction sweep (effect rules) done rest with
  | case1 => rw [rewriteFrom]
  | case2 done rest hrest ih => rw [rewriteFrom_next rules done hrest, ← step_effect, ih]

/-! ### Routines that hold rules -/

namespace Shape

/-- A routine holds rules, and before it are glyphs of which none is masked. -/
structure Poised (feature : Option String) (font : Font) (rules : List Rule) (glyphs : List String) (id : RoutineId)
    (s : Session) : Prop where
  font : s.font = font
  flags : (s.book.routine id).flags.counts = false
  rules : s.book.rulesOf id = rules
  glyphs : s.buffer.items.map (·.glyph) = glyphs.map some
  clear : ∀ f, f ≠ "" → feature = some f ∨ s.buffer.feature = some f → ∀ i ∈ s.buffer.items, i.isMasked f = false

section
variable {glyphs : List String} (h : Poised feature font rules glyphs id s) (hrules : ∀ r ∈ rules, IsRewriting font r)
  (classes : Classes) (hstage : stage ≠ some .pos)
include h hrules classes hstage

/-- Rules that rewrite leave what their sweep leaves, and mask nothing. -/
lemma Poised.stands : ∃ t, (applyRoutine classes stage feature id).on s = (.ok (), t) ∧
      Stands s t (sweep (effect (rules.map ofRule)) [] glyphs) [] := by
  obtain ⟨rfl, hflags, rfl, hglyphs, hclear⟩ := h
  rw [← rewriteFrom_eq_sweep]
  exact applyRoutine_stands classes hstage hrules hflags hglyphs hclear

lemma Poised.applyRoutine : ∃ t, (applyRoutine classes stage feature id).on s = (.ok (), t) ∧
      t.buffer.items.map (·.glyph) = (sweep (effect (rules.map ofRule)) [] glyphs).map some := by
  obtain ⟨t, ht, hstands⟩ := h.stands hrules classes hstage
  exact ⟨t, ht, hstands.all⟩

end

/-- A routine holds rules, and a sweep with it has come to where the rest begins. -/
structure Arrived (font : Font) (rules : List Rule) (done rest : List String) (id : RoutineId)
    (s : Session) : Prop where
  font : s.font = font
  rules : s.book.rulesOf id = rules
  glyphs : s.buffer.items.map (·.glyph) = (done ++ rest).map some
  whole : s.buffer.Whole
  clear : s.buffer.Clear

lemma Arrived.goesOn (h : Arrived font rules done rest id s) (hrules : ∀ r ∈ rules, IsRewriting font r)
    (classes) (hstage : stage ≠ some .pos) :
    ∃ t, loop (pass classes stage id (s.book.routine id) (s.book.ruleIds id)) done.length s = some (.ok (), t) ∧
      t.buffer.items.map (·.glyph) = (sweep (effect (rules.map ofRule)) done rest).map some := by
  obtain ⟨rfl, rfl, hglyphs, hwhole, hclear⟩ := h
  have hstands : Stands s s done rest := ⟨Std.Refl.refl s, hglyphs, hwhole, hclear, Std.Refl.refl s⟩
  obtain ⟨t, ht, hleft⟩ := loop_stands classes id (s.book.routine id) hstage
    (fun i hi => hrules _ (mem_map_of_mem hi)) hstands
  rw [← rewriteFrom_eq_sweep, Book.rulesOf, map_map]
  exact ⟨t, ht, hleft.all⟩

end Shape

def sessionOf (font : Font) (rules : List Rule) (glyphs : List String) : Session :=
  { book := { routines := #[{ content := .rules (List.range rules.length) }], rules := rules.toArray }
    font
    characters := {}
    buffer := { items := glyphs.map fun g => { glyph := some g }, view := .whole glyphs.length } }

lemma sessionOf_glyphs (font) (rules) (glyphs) :
    (sessionOf font rules glyphs).buffer.items.map (·.glyph) = glyphs.map some := by
  simp [sessionOf]

lemma sessionOf_rulesOf (font) (rules) (glyphs) :
    (sessionOf font rules glyphs).book.rulesOf 0 = rules := by
  show ((List.range rules.length).map fun i => rules.toArray.getD i default) = rules
  refine ext_getElem (by simp) fun i hi hi' => ?_
  simp [hi']

lemma sessionOf_poised (font) (rules) (glyphs) :
    Shape.Poised none font rules glyphs 0 (sessionOf font rules glyphs) where
  font := rfl
  flags := rfl
  rules := sessionOf_rulesOf font rules glyphs
  glyphs := sessionOf_glyphs font rules glyphs
  clear _ _ hf := hf.elim nofun nofun

/-! ### Shaping as something else sweeps -/

/-- Shaping with the rules leaves what the sweep leaves, whatever buffer it begins with. -/
def ShapesAs (font : Font) (rules : List Rule) (e : Effect) : Prop :=
  ∀ classes stage feature glyphs id s, stage ≠ some .pos → Shape.Poised feature font rules glyphs id s →
    ∃ t, (Shape.applyRoutine classes stage feature id).on s = (.ok (), t) ∧
      t.buffer.items.map (·.glyph) = (sweep e [] glyphs).map some

/-- The same from every place on, whatever has been done before it. -/
def GoesOnAs (font : Font) (rules : List Rule) (e : Effect) : Prop :=
  ∀ classes stage done rest id s, stage ≠ some .pos → Shape.Arrived font rules done rest id s →
    ∃ t, loop (Shape.pass classes stage id (s.book.routine id) (s.book.ruleIds id)) done.length s = some (.ok (), t) ∧
      t.buffer.items.map (·.glyph) = (sweep e done rest).map some

section
variable (hrules : ∀ r ∈ rules, IsRewriting font r)
include hrules

lemma shapesAs_iff : ShapesAs font rules e ↔
    ∀ glyphs, sweep (effect (rules.map ofRule)) [] glyphs = sweep e [] glyphs := by
  constructor
  · intro h glyphs
    have poised := sessionOf_poised font rules glyphs
    obtain ⟨t, ht, hleaves⟩ := poised.applyRoutine hrules [] none_ne_pos
    obtain ⟨u, hu, hsame⟩ := h [] none none glyphs 0 _ none_ne_pos poised
    obtain ⟨-, rfl⟩ := Prod.mk.inj (ht.symm.trans hu)
    exact map_injective_iff.2 (fun _ _ => Option.some.inj) (hleaves.symm.trans hsame)
  · intro h classes stage feature glyphs id s hstage poised
    obtain ⟨t, ht, hleaves⟩ := poised.applyRoutine hrules classes hstage
    exact ⟨t, ht, by rw [hleaves, h]⟩

lemma goesOnAs_iff : GoesOnAs font rules e ↔
    ∀ done rest, sweep (effect (rules.map ofRule)) done rest = sweep e done rest := by
  constructor
  · intro h done rest
    have arrived : Shape.Arrived font rules done rest 0 (sessionOf font rules (done ++ rest)) :=
      ⟨rfl, sessionOf_rulesOf .., sessionOf_glyphs .., by simp [Buffer.Whole, sessionOf, View.places], nofun⟩
    obtain ⟨t, ht, hleaves⟩ := arrived.goesOn hrules [] none_ne_pos
    obtain ⟨u, hu, hsame⟩ := h [] none done rest 0 _ none_ne_pos arrived
    obtain ⟨-, rfl⟩ := Prod.mk.inj (Option.some.inj (ht.symm.trans hu))
    exact map_injective_iff.2 (fun _ _ => Option.some.inj) (hleaves.symm.trans hsame)
  · intro h classes stage done rest id s hstage arrived
    obtain ⟨t, ht, hleaves⟩ := arrived.goesOn hrules classes hstage
    exact ⟨t, ht, by rw [hleaves, h]⟩

end

/-- Shaping with either of two lists of rules leaves the same, whatever buffer it begins with. -/
def ShapeAlike (font : Font) (rules rules' : List Rule) : Prop :=
  ∀ classes stage feature glyphs id id' s s', stage ≠ some .pos → Shape.Poised feature font rules glyphs id s →
    Shape.Poised feature font rules' glyphs id' s' →
    ∃ t t', (Shape.applyRoutine classes stage feature id).on s = (.ok (), t) ∧
      (Shape.applyRoutine classes stage feature id').on s' = (.ok (), t') ∧
      t.buffer.items.map (·.glyph) = t'.buffer.items.map (·.glyph)

lemma shapeAlike_iff {rules rules'} (hrules : ∀ r ∈ rules, IsRewriting font r)
    (hrules' : ∀ r ∈ rules', IsRewriting font r) : ShapeAlike font rules rules' ↔
      ∀ glyphs, sweep (effect (rules.map ofRule)) [] glyphs = sweep (effect (rules'.map ofRule)) [] glyphs := by
  constructor
  · intro h glyphs
    have poised := sessionOf_poised font rules glyphs
    have poised' := sessionOf_poised font rules' glyphs
    obtain ⟨t, ht, hleaves⟩ := poised.applyRoutine hrules [] none_ne_pos
    obtain ⟨t', ht', hleaves'⟩ := poised'.applyRoutine hrules' [] none_ne_pos
    obtain ⟨u, u', hu, hu', hsame⟩ := h [] none none glyphs 0 0 _ _ none_ne_pos poised poised'
    obtain ⟨-, rfl⟩ := Prod.mk.inj (ht.symm.trans hu)
    obtain ⟨-, rfl⟩ := Prod.mk.inj (ht'.symm.trans hu')
    exact map_injective_iff.2 (fun _ _ => Option.some.inj) (hleaves.symm.trans (hsame.trans hleaves'))
  · intro h classes stage feature glyphs id id' s s' hstage poised poised'
    obtain ⟨t, ht, hleaves⟩ := poised.applyRoutine hrules classes hstage
    obtain ⟨t', ht', hleaves'⟩ := poised'.applyRoutine hrules' classes hstage
    exact ⟨t, t', ht, ht', by rw [hleaves, hleaves', h]⟩

end GlyphRules.Shaping
