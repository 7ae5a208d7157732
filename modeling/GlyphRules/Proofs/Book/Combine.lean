import GlyphRules.Book.Basic
import GlyphRules.Proofs.Dict

/-! Two books in one.

What two books have in common the second replaces. `combine_complete_iff` says when nothing is lost:
no call of a common feature, no anchor of a common glyph, no number of a symbol that was made. -/
namespace GlyphRules.Book

open Dict

variable {b : Book} {symbol : String}

/-! ### Symbols -/

def tally (b : Book) (category : String) : Int := (get? b.symbols category).getD 0

/-- Symbols of some categories, made one after the other. -/
def gensyms (b : Book) : List String → List String × Book
  | [] => ([], b)
  | c :: cs => ((b.gensym c).1 :: ((b.gensym c).2.gensyms cs).1, ((b.gensym c).2.gensyms cs).2)

lemma gensym_fst (b : Book) (c) : (b.gensym c).1 = c ++ toString (b.tally c + 1) := rfl

lemma tally_gensym (b : Book) (c c') :
    (b.gensym c).2.tally c' = if c' = c then b.tally c + 1 else b.tally c' := by
  show (get? (set b.symbols c _) c').getD 0 = _
  rw [get?_set]
  split <;> rfl

lemma tally_le_gensym (b : Book) (c c') : b.tally c' ≤ (b.gensym c).2.tally c' := by
  rw [tally_gensym]
  split
  · next h =>
    rw [h]
    omega
  · exact Int.le_refl _

/-- Making symbols changes nothing else. -/
lemma gensyms_rest (b : Book) (cs) :
    (b.gensyms cs).2.order = b.order ∧ (b.gensyms cs).2.features = b.features ∧
      (b.gensyms cs).2.anchors = b.anchors := by
  induction cs generalizing b with
  | nil => exact ⟨rfl, rfl, rfl⟩
  | cons c cs ih => exact ih (b.gensym c).2

lemma exists_of_mem_gensyms (h : symbol ∈ (b.gensyms cs).1) :
    ∃ c n, symbol = c ++ toString n ∧ b.tally c < n := by
  induction cs generalizing b with
  | nil => cases h
  | cons c cs ih =>
    rcases List.mem_cons.1 h with rfl | h
    · exact ⟨c, b.tally c + 1, gensym_fst b c, by omega⟩
    · obtain ⟨c', n, rfl, hn⟩ := ih h
      exact ⟨c', n, rfl, Int.lt_of_le_of_lt (tally_le_gensym b c c') hn⟩

/-- Every number that a category has not come to yet is made in time. -/
lemma mem_gensyms_replicate (c) (k) (b : Book) :
    c ++ toString (b.tally c + k + 1) ∈ (b.gensyms (List.replicate (k + 1) c)).1 := by
  induction k generalizing b with
  | zero =>
    show c ++ toString (b.tally c + 0 + 1) ∈ _
    rw [Int.add_zero]
    exact List.mem_cons_self ..
  | succ k ih =>
    have next : b.tally c + (k + 1 : Nat) + 1 = (b.gensym c).2.tally c + k + 1 := by
      rw [tally_gensym, if_pos rfl]
      omega
    rw [next]
    exact List.mem_cons_of_mem _ (ih _)

lemma mem_gensyms_iff : (∃ cs, symbol ∈ (b.gensyms cs).1) ↔ ∃ c n, symbol = c ++ toString n ∧ b.tally c < n := by
  constructor
  · rintro ⟨cs, h⟩
    exact exists_of_mem_gensyms h
  · rintro ⟨c, n, rfl, hn⟩
    obtain ⟨k, hk⟩ := Int.le.dest (show b.tally c + 1 ≤ n by omega)
    have number : n = b.tally c + k + 1 := by omega
    exact ⟨List.replicate (k + 1) c, number ▸ mem_gensyms_replicate c k b⟩

/-- However a symbol divides into a category and a number, the category has come to that number. -/
def Spent (b : Book) (symbol : String) : Prop := ∀ c n, symbol = c ++ toString n → n ≤ b.tally c

/-- A symbol is spent exactly if it will never be made again. -/
lemma spent_iff_never : b.Spent symbol ↔ ∀ cs, symbol ∉ (b.gensyms cs).1 := by
  rw [← not_exists, mem_gensyms_iff, Spent]
  simp only [not_exists, not_and, Int.not_lt]

/-! ### The whole of two books -/

def anchor? (b : Book) (glyph name : String) : Option Point := (get? b.anchors glyph).bind (get? · name)

/-- No feature is listed twice, and no glyph with anchors. -/
structure Distinct (b : Book) : Prop where
  features : (b.features.map (·.1)).Nodup
  anchors : (b.anchors.map (·.1)).Nodup

/-- The sum of two books has the calls, anchors and routines of both, and makes no symbol that was made on
one of them. -/
structure Complete (a b sum : Book) (made : List String) : Prop where
  routines : sum.order = a.order ++ b.order
  calls : ∀ tag, get? sum.features tag = (get? a.features tag).merge (· ++ ·) (get? b.features tag)
  anchors : ∀ glyph name, sum.anchor? glyph name = (b.anchor? glyph name).or (a.anchor? glyph name)
  fresh : ∀ next, ∀ symbol ∈ (sum.gensyms next).1, symbol ∉ made

section
variable (a : Book) (hb : b.Distinct)
include a hb

lemma get?_features_combine (tag) :
    get? (a.combine b).features tag = (get? b.features tag).or (get? a.features tag) := by
  rw [← last?_eq_get? hb.features]
  exact get?_merge a.features b.features tag

lemma anchor?_combine (glyph name) : (a.combine b).anchor? glyph name =
      ((get? b.anchors glyph).or (get? a.anchors glyph)).bind (get? · name) := by
  rw [← last?_eq_get? hb.anchors]
  exact congrArg (·.bind (get? · name)) (get?_merge a.anchors b.anchors glyph)

/-- The calls of a feature are those of both books unless the second has the feature and the first calls
something from it. -/
lemma calls_complete_iff : (∀ tag, get? (a.combine b).features tag =
        (get? a.features tag).merge (· ++ ·) (get? b.features tag)) ↔
      ∀ f ∈ b.features, (get? a.features f.1).getD [] = [] := by
  simp only [get?_features_combine a hb]
  constructor
  · intro h f hf
    have := h f.1
    rw [(mem_iff_get? hb.features).1 hf] at this
    cases ha : get? a.features f.1 with
    | none => rfl
    | some calls =>
      rw [ha] at this
      simpa using this
  · intro h tag
    cases hg : get? b.features tag with
    | none => cases get? a.features tag <;> rfl
    | some more =>
      have := h (tag, more) ((mem_iff_get? hb.features).2 hg)
      cases ha : get? a.features tag with
      | none => rfl
      | some calls =>
        rw [ha] at this
        cases this
        rfl

/-- The anchors of a glyph are those of both books unless the second has anchors for the glyph and not all
that the first has. -/
lemma anchors_complete_iff :
    (∀ glyph name, (a.combine b).anchor? glyph name = (b.anchor? glyph name).or (a.anchor? glyph name)) ↔
      ∀ g ∈ b.anchors, ∀ x ∈ (get? a.anchors g.1).getD [], has g.2 x.1 = true := by
  have given {glyph name} : (a.anchor? glyph name).isSome = true ↔
      ∃ x ∈ (get? a.anchors glyph).getD [], x.1 = name := by
    unfold anchor?
    cases get? a.anchors glyph with
    | none => simp
    | some named => exact mem_keys_iff.symm.trans List.mem_map
  simp only [anchor?_combine a hb]
  constructor
  · intro h g hg x hx
    have both := h g.1 x.1
    unfold anchor? at both
    rw [(mem_iff_get? hb.anchors).1 hg] at both
    rw [has_eq_isSome]
    cases hfind : get? g.2 x.1 with
    | some point => rfl
    | none =>
      have none : a.anchor? g.1 x.1 = none := by
        unfold anchor?
        simpa [hfind, eq_comm] using both
      have some := given.2 ⟨x, hx, rfl⟩
      rw [none] at some
      cases some
  · intro h glyph name
    unfold anchor?
    cases hg : get? b.anchors glyph with
    | none => rfl
    | some named =>
      have listed := h (glyph, named) ((mem_iff_get? hb.anchors).2 hg)
      show get? named name = (get? named name).or (a.anchor? glyph name)
      cases hfind : get? named name with
      | some point => rfl
      | none =>
        rw [Option.none_or, eq_comm, ← Option.not_isSome_iff_eq_none, given]
        rintro ⟨x, hx, rfl⟩
        have found := listed x hx
        rw [has_eq_isSome, hfind] at found
        cases found

end

lemma fresh_iff {sum : Book} {made : List String} :
    (∀ next, ∀ symbol ∈ (sum.gensyms next).1, symbol ∉ made) ↔ ∀ symbol ∈ made, sum.Spent symbol := by
  simp only [spent_iff_never]
  exact ⟨fun h symbol hmade next hnext => h next symbol hnext hmade,
    fun h next symbol hnext hmade => h symbol hmade next hnext⟩

/-- Two books in one, after symbols have been made on both. -/
def sumOf (a b : Book) (early late : List String) : Book := (a.gensyms early).2.combine (b.gensyms late).2

/-- **Two books in one.** Whatever symbols have been made on them, combining two books keeps all routines;
it keeps everything exactly if a feature of the second calls nothing in the first, a glyph with anchors in
the second has the names of all that it has in the first, and no symbol that was made can come again. -/
theorem combine_complete_iff {b : Book} (a : Book) (hb : b.Distinct) (early late : List String) :
    (sumOf a b early late).order = a.order ++ b.order ∧
      (Complete a b (sumOf a b early late) ((a.gensyms early).1 ++ (b.gensyms late).1) ↔
        (∀ f ∈ b.features, (get? a.features f.1).getD [] = []) ∧
          (∀ g ∈ b.anchors, ∀ x ∈ (get? a.anchors g.1).getD [], has g.2 x.1 = true) ∧
          ∀ symbol ∈ (a.gensyms early).1 ++ (b.gensyms late).1, (sumOf a b early late).Spent symbol) := by
  obtain ⟨aOrder, aFeatures, aAnchors⟩ := a.gensyms_rest early
  obtain ⟨bOrder, bFeatures, bAnchors⟩ := b.gensyms_rest late
  have order : (sumOf a b early late).order = a.order ++ b.order := congrArg₂ (· ++ ·) aOrder bOrder
  have features : (sumOf a b early late).features = (a.combine b).features := congrArg₂ merge aFeatures bFeatures
  have anchor (glyph name) : (sumOf a b early late).anchor? glyph name = (a.combine b).anchor? glyph name :=
    congrArg (fun d => (get? d glyph).bind (get? · name)) (congrArg₂ merge aAnchors bAnchors)
  refine ⟨order, ?_⟩
  rw [← calls_complete_iff a hb, ← anchors_complete_iff a hb, ← fresh_iff]
  constructor
  · intro h
    refine ⟨fun tag => ?_, fun glyph name => ?_, h.fresh⟩
    · rw [← features, h.calls]
    · rw [← anchor, h.anchors]
  · rintro ⟨calls, anchors, fresh⟩
    refine ⟨order, fun tag => ?_, fun glyph name => ?_, fresh⟩
    · rw [features, calls]
    · rw [anchor, anchors]

/-- A feature with a call and a glyph with an anchor. -/
def leaf (tag : String) (i : RoutineId) (glyph name : String) : Book :=
  { order := [i], features := [(tag, [.ref { routine := some i }])], anchors := [(glyph, [(name, .int 0, .int 0)])] }

theorem combine_complete_leaves : (leaf "kern" 1 "a" "top").Distinct ∧
      Complete (leaf "liga" 0 "a" "top") (leaf "kern" 1 "a" "top")
        (sumOf (leaf "liga" 0 "a" "top") (leaf "kern" 1 "a" "top") [] []) [] := by
  have distinct : (leaf "kern" 1 "a" "top").Distinct := ⟨by decide, by decide⟩
  refine ⟨distinct, ?_⟩
  exact (combine_complete_iff (leaf "liga" 0 "a" "top") distinct [] []).2.2
    ⟨by decide, by decide, List.forall_mem_nil _⟩

/-- Two books with a feature and a glyph in common. -/
def rivals : Book :=
  sumOf (leaf "liga" 0 "a" "top") (leaf "liga" 1 "a" "bottom") ["Routine_", "Routine_"] ["Routine_"]

/-- Of the feature and of the glyph only what the second book has is left, and a symbol that was made on the
first comes again. -/
theorem combine_loses :
    ¬Complete (leaf "liga" 0 "a" "top") (leaf "liga" 1 "a" "bottom") rivals ["Routine_1", "Routine_2", "Routine_1"] ∧
      get? rivals.features "liga" = some [.ref { routine := some 1 }] ∧ rivals.anchor? "a" "top" = none ∧
      (rivals.gensym "Routine_").1 = "Routine_2" := by
  refine ⟨fun h => ?_, by decide +kernel⟩
  exact absurd (h.calls "liga") (by decide +kernel)

end GlyphRules.Book
