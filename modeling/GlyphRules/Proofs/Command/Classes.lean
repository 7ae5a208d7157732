import GlyphRules.Command.ClassExpression
import GlyphRules.Proofs.Command.Selections
import GlyphRules.Proofs.Dict
import GlyphRules.Proofs.Text

/-! Class expressions as sets.

An expression denotes a set of glyphs, and a class that is defined by it has exactly these members, as long as every
comparison comes out right for every glyph of the font. A comparison with zero does not: it only asks whether the
measure is zero (`defineClass_denotes_iff`). -/
namespace GlyphRules.Command

open Step List

abbrev Comparison := Metric × Relation × Int

/-- The measure of a glyph stands in the relation to the number. -/
def Comparison.Stands (c : Comparison) (x : Glyph) : Prop := ∃ a ∈ c.1.of x, c.2.1.between a (.int c.2.2)

/-- How a comparison is made. -/
def Comparison.Made (c : Comparison) (x : Glyph) : Prop := c.2.1.holds (c.1.of x) c.2.2

/-- The measure is known; compared with zero, it stands in the relation unless it is zero. -/
def Comparison.Decided (c : Comparison) (x : Glyph) : Prop :=
  if c.2.2 = 0 then ∀ a ∈ c.1.of x, c.2.1.between a 0 = !a.isZero else (c.1.of x).isSome

lemma Comparison.made_iff_stands_iff (c : Comparison) (x) : (c.Made x ↔ c.Stands x) ↔ c.Decided x := by
  obtain ⟨m, r, n⟩ := c
  unfold Made Stands Decided Relation.holds
  cases m.of x with
  | none => by_cases hn : n = 0 <;> simp [hn]
  | some a =>
    by_cases hn : n = 0
    · subst hn
      simp only [Option.mem_def, Option.some.injEq, exists_eq_left', forall_eq', if_pos]
      exact Bool.coe_iff_coe.trans eq_comm
    · simp [hn]

section
variable (truth : Comparison → Glyph → Prop) (w : Workshop)

def Predicate.Means (x : Glyph) : Predicate → Prop
  | compare m r (.ok n) => truth (m, r, n) x
  | negated p => ¬p.Means x
  | _ => False

/-- The glyphs that an expression denotes. -/
def ClassExpression.Denotes : ClassExpression → String → Prop
  | selection s, g => ∃ l, (do (← Phrase.usable s).stands w) = .ok l ∧ g ∈ l
  | predicate p, g => ∃ x ∈ w.font.glyphs, p.Means truth x ∧ x.name = g
  | join .both l r, g => l.Denotes g ∧ r.Denotes g
  | join .any l r, g => l.Denotes g ∨ r.Denotes g
  | join .less l r, g => l.Denotes g ∧ ¬r.Denotes g

end

/-- Made of selections that can be resolved and of some comparisons, as they are or negated. -/
inductive MadeOf (w : Workshop) (cs : List Comparison) : ClassExpression → Prop
  | selection {s : Selection} {l : List String} (h : (do (← Phrase.usable s).stands w) = Except.ok l) :
    MadeOf w cs (.selection s)
  | compare {c : Comparison} (h : c ∈ cs) : MadeOf w cs (.predicate (.compare c.1 c.2.1 (.ok c.2.2)))
  | negated {c : Comparison} (h : c ∈ cs) : MadeOf w cs (.predicate (.negated (.compare c.1 c.2.1 (.ok c.2.2))))
  | join (op : Conjunction) {l r : ClassExpression} (hl : MadeOf w cs l) (hr : MadeOf w cs r) : MadeOf w cs (.join op l r)

variable {w : Workshop} {cs : List Comparison} {e : ClassExpression}

lemma MadeOf.denotes_congr (h : ∀ c ∈ cs, ∀ x ∈ w.font.glyphs, p c x ↔ q c x)
    (he : MadeOf w cs e) (g) : e.Denotes p w g ↔ e.Denotes q w g := by
  have each {P Q : Glyph → Prop} (h : ∀ x ∈ w.font.glyphs, P x ↔ Q x) :
      (∃ x ∈ w.font.glyphs, P x ∧ x.name = g) ↔ ∃ x ∈ w.font.glyphs, Q x ∧ x.name = g :=
    exists_congr fun x => and_congr_right fun hx => and_congr_left' (h x hx)
  induction he with
  | selection => rfl
  | compare hc => exact each (h _ hc)
  | negated hc => exact each fun x hx => not_congr (h _ hc x hx)
  | join op _ _ hl hr => cases op <;> simp [ClassExpression.Denotes, hl, hr]

lemma MadeOf.evaluate_on (he : MadeOf w cs e) (notes) : ∃ l more,
    e.evaluate.on (w.noting notes) = (.ok l, w.noting more) ∧ ∀ g, g ∈ l ↔ e.Denotes Comparison.Made w g := by
  induction he generalizing notes with
  | @selection s l hl =>
    obtain ⟨more, hrun⟩ := ((Asks.ofExcept (Phrase.usable s)).bind .resolve).on_ok hl notes
    exact ⟨l, more, hrun, fun g => ⟨fun hg => ⟨l, hl, hg⟩, fun ⟨l', hl', hg⟩ => Except.ok.inj (hl'.symm.trans hl) ▸ hg⟩⟩
  | compare | negated =>
    refine ⟨_, notes, rfl, fun g => ?_⟩
    simp [ClassExpression.Denotes, Predicate.Means, Comparison.Made, Predicate.holds, Workshop.noting, and_assoc]
  | join op _ _ hl hr =>
    obtain ⟨l, more, hl, hdl⟩ := hl notes
    obtain ⟨r, last, hr, hdr⟩ := hr more
    refine ⟨op.apply l r, last, (on_bind_ok hl _).trans (on_bind_ok hr _), fun g => ?_⟩
    unfold Conjunction.apply
    rw [Text.mem_sort_distinct]
    cases op <;> simp [ClassExpression.Denotes, hdl, hdr]

/-- How the definition of a class is written. -/
def classDefinition (vars : Variables) : Phrase (String × ClassExpression) := do
  let name ← Phrase.className
  Phrase.sign "="
  let e ← Phrase.classExpression vars
  pure (name, e)

/-- **Classes have the members that their expressions denote exactly when** every comparison is decided for every glyph
of the font. -/
theorem defineClass_denotes_iff (hnames : w.font.names.Nodup) (cs : List Comparison) :
    (∀ e, MadeOf w cs e → ∃ l w', e.evaluate.on w = (.ok l, w') ∧ (∀ g, g ∈ l ↔ e.Denotes Comparison.Stands w g) ∧
      ∀ text name, (classDefinition w.vars).read text = .ok (name, e) →
        ∃ w'', (Craft.defineClass text).on w = (.ok (), w'') ∧ Dict.get? w''.book.namedClasses name = some l) ↔
      ∀ c ∈ cs, ∀ x ∈ w.font.glyphs, c.Decided x := by
  constructor
  · intro h c hc x hx
    obtain ⟨l, w', hrun, hl, -⟩ := h _ (.compare hc)
    obtain ⟨l', more, hrun', hl'⟩ := (MadeOf.compare hc).evaluate_on []
    rw [Asks.noting_nil, hrun] at hrun'
    cases hrun'
    have only {P : Glyph → Prop} : (∃ y ∈ w.font.glyphs, P y ∧ y.name = x.name) ↔ P x :=
      ⟨fun ⟨y, hy, hP, heq⟩ => inj_on_of_nodup_map hnames hy hx heq ▸ hP, fun hP => ⟨x, hx, hP, rfl⟩⟩
    rw [← Comparison.made_iff_stands_iff]
    exact only.symm.trans ((hl' x.name).symm.trans ((hl x.name).trans only))
  · intro h e he
    obtain ⟨l, more, hrun, hl⟩ := he.evaluate_on []
    rw [Asks.noting_nil] at hrun
    refine ⟨l, _, hrun, fun g => (hl g).trans (he.denotes_congr (fun c hc x hx => ?_) g), fun text name hread => ?_⟩
    · exact (c.made_iff_stands_iff x).2 (h c hc x hx)
    · have run : (Craft.read classDefinition text).on w = (.ok (name, e), w) :=
        (on_get_bind _ w).trans ((on_ofExcept _ w).trans (by rw [hread]))
      refine ⟨_, (on_bind_ok run _).trans (on_bind_ok hrun _), ?_⟩
      exact (Dict.get?_set _ name name l).trans (if_pos rfl)

/-- Compared with zero, any other width counts as equal. -/
theorem defineClass_zero : Comparison.Made (.width, .equal, 0) { name := "a", width := 5 } ∧
    ¬Comparison.Stands (.width, .equal, 0) { name := "a", width := 5 } := by
  refine ⟨rfl, ?_⟩
  rintro ⟨_, ha, h⟩
  cases ha
  cases h

/-- Two glyphs of different widths. -/
def pair : Workshop := { font := ⟨[{ name := "a", width := 100 }, { name := "b", width := 200 }]⟩ }

theorem defineClass_denotes_pair : pair.font.names.Nodup ∧ ∃ l w',
    (ClassExpression.predicate (.compare .width .atLeast (.ok 150))).evaluate.on pair = (.ok l, w') ∧
    ∀ g, g ∈ l ↔
      (ClassExpression.predicate (.compare .width .atLeast (.ok 150))).Denotes Comparison.Stands pair g := by
  have hnames : pair.font.names.Nodup := by decide
  obtain ⟨l, w', hrun, hl, -⟩ := (defineClass_denotes_iff hnames [(.width, .atLeast, 150)]).2
    (by simp [Comparison.Decided, Metric.of]) _ (.compare (mem_singleton_self _))
  exact ⟨hnames, l, w', hrun, hl⟩

end GlyphRules.Command
