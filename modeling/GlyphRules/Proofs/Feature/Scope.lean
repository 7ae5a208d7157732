import GlyphRules.Proofs.Feature.Outline

/-! Every lookup that is called is defined once.

A book made of features is written with all its lookups in scope, but for two cases: a routine with
languages that is used once is called and not defined, and so is a routine without rules. There are
no others, as long as names are told apart (`bookStatements_wellScoped_iff`). -/
namespace GlyphRules.Feature

open List Book

variable {i : RoutineId}

/-- The names of routines in force differ, and none is that of a part of a routine that is used once. -/
structure NamesApart (b : Book) : Prop where
  differ : ∀ i ∈ b.order, ∀ j ∈ b.order, title b i = title b j → i = j
  parts : ∀ i ∈ b.order, ∀ j ∈ b.order, (b.routine i).usecount = 1 → ¬(title b i ++ "_").toList <+: (title b j).toList

def UsedOnce (b : Book) (us : List (String × RoutineId)) (i : RoutineId) : Prop :=
  (us.map (·.2)).count i = 1 ∧ ¬b.ChainCalled i
deriving Decidable

def CalledByName (b : Book) (us : List (String × RoutineId)) (i : RoutineId) : Prop :=
  b.ChainCalled i ∨ ∃ tag, (tag, i) ∈ us ∧ inlined b tag i = false

lemma usecount_of_inlined {tag} (h : inlined b tag i) : (b.routine i).usecount = 1 := by
  simpa using (Bool.and_eq_true_iff.1 h).2

namespace Outline
variable {base b : Book} {us : List (String × RoutineId)} {sts : List Statement} (h : Outline base b us sts)
include h

lemma mem_order (hi : CalledByName b us i) : i ∈ b.order := by
  rcases hi with ⟨k, hk, hi⟩ | ⟨tag, hu, -⟩
  · exact h.callees k hk i hi
  · exact h.used _ hu

lemma exists_of_called (hm : m ∈ calledNames sts) : ∃ i, CalledByName b us i ∧ m = title b i := by
  have chained {i} (hi : i ∈ b.order) (hm : m ∈ b.namesIn (b.ruleIds i)) :
      ∃ j, CalledByName b us j ∧ m = title b j := by
    obtain ⟨j, hj, rfl⟩ := (h.names i hi m).1 hm
    exact ⟨j, .inl ⟨i, hi, hj⟩, rfl⟩
  rcases (h.called m).1 hm with ⟨i, hi, -, hm⟩ | ⟨u, hu, hm⟩
  · exact chained hi hm
  · split at hm
    · exact chained (h.used u hu) hm
    · next hin => exact ⟨u.2, .inr ⟨u.1, hu, by simpa using hin⟩, hm⟩

/-- A routine that is called by its name is nowhere written in full inside a feature. -/
lemma not_inlined (hi : CalledByName b us i) {tag} (hu : (tag, i) ∈ us) : inlined b tag i = false := by
  by_contra hin
  rw [Bool.not_eq_false] at hin
  obtain ⟨once, hchain⟩ := (h.once i (h.used _ hu)).1 (usecount_of_inlined hin)
  obtain ⟨tag', hu', hin'⟩ := hi.resolve_left hchain
  have hne : (tag, i) ≠ (tag', i) := by
    intro heq
    rw [(Prod.mk.inj heq).1, hin'] at hin
    cases hin
  -- Both uses count, so it is not used once.
  have two : 2 ≤ (us.filter (·.2 == i)).length :=
    two_le_length hne (mem_filter.2 ⟨hu, by simp⟩) (mem_filter.2 ⟨hu', by simp⟩)
  rw [count_eq_countP, countP_map, countP_eq_length_filter] at once
  exact absurd (once ▸ two) (by decide)

lemma count_defined (hnames : NamesApart b) (hi : CalledByName b us i) :
    (definedNames sts).count (title b i) = if standsAlone b i then 1 else 0 := by
  obtain ⟨inner, hperm, hinner⟩ := h.defined
  have hmem := h.mem_order hi
  have outside : title b i ∉ inner := by
    intro hm
    obtain ⟨⟨tag, j⟩, hu, hin, hm⟩ := hinner _ hm
    have hj := h.used _ hu
    rcases hm with heq | ⟨x, heq⟩
    · cases hnames.differ i hmem j hj heq
      rw [h.not_inlined hi hu] at hin
      cases hin
    · refine hnames.parts j hj i hmem (usecount_of_inlined hin) ⟨x.toList, ?_⟩
      rw [heq]
      simp
  have distinct : ((b.order.filter (standsAlone b)).map (title b)).Nodup := by
    refine Nodup.map_on (fun x hx y hy heq => ?_) (h.nodup.filter _)
    exact hnames.differ x (mem_filter.1 hx).1 y (mem_filter.1 hy).1 heq
  have alone : title b i ∈ (b.order.filter (standsAlone b)).map (title b) ↔ standsAlone b i = true := by
    constructor
    · intro hm
      obtain ⟨j, hj, heq⟩ := mem_map.1 hm
      obtain ⟨hj, halone⟩ := mem_filter.1 hj
      exact hnames.differ j hj i hmem heq ▸ halone
    · exact fun halone => mem_map_of_mem (mem_filter.2 ⟨hmem, halone⟩)
  rw [hperm.count_eq, count_append, count_eq_zero.2 outside]
  split
  · next halone => exact count_eq_one_of_mem distinct (alone.2 halone)
  · next halone => exact count_eq_zero.2 fun hm => halone (alone.1 hm)

lemma wellScoped_iff (hnames : NamesApart b) :
    WellScoped sts ↔ ∀ i, CalledByName b us i → standsAlone b i = true := by
  constructor
  · intro hscoped
    have alone {i} (hi : CalledByName b us i) (hm : title b i ∈ calledNames sts) : standsAlone b i = true := by
      have one := hscoped _ hm
      rw [h.count_defined hnames hi] at one
      by_contra hnot
      rw [if_neg hnot] at one
      cases one
    have feature {tag i} (hu : (tag, i) ∈ us) (hin : inlined b tag i = false) : standsAlone b i = true := by
      refine alone (.inr ⟨tag, hu, hin⟩) ((h.called _).2 (.inr ⟨(tag, i), hu, ?_⟩))
      rw [if_neg (by simp [hin])]
    rintro j (⟨i, hi, hj⟩ | ⟨tag, hu, hin⟩)
    · -- The chain that calls it is written: its routine stands alone, or a feature writes it in full.
      have hm : title b j ∈ b.namesIn (b.ruleIds i) := (h.names i hi _).2 ⟨j, hj, rfl⟩
      refine alone (.inl ⟨i, hi, hj⟩) ((h.called _).2 ?_)
      by_cases halone : standsAlone b i = true
      · exact .inl ⟨i, hi, halone, hm⟩
      · have hids : b.ruleIds i ≠ [] := by
          intro hnil
          rw [hnil] at hm
          cases hm
        have once : (b.routine i).usecount = 1 := by
          unfold standsAlone at halone
          simpa [hids] using halone
        have hcount := ((h.once i hi).1 once).1
        have hused : i ∈ us.map (·.2) := count_pos_iff.1 (by rw [hcount]; exact Nat.one_pos)
        obtain ⟨⟨tag, i⟩, hu, rfl⟩ := mem_map.1 hused
        cases hin : inlined b tag i with
        | false => exact absurd (feature hu hin) halone
        | true => exact .inr ⟨(tag, i), hu, by rwa [if_pos hin]⟩
    · exact feature hu hin
  · intro halone m hm
    obtain ⟨i, hi, rfl⟩ := h.exists_of_called hm
    rw [h.count_defined hnames hi, if_pos (halone i hi)]

end Outline

/-- **The lookups of a book made of features are in scope exactly when** no routine that is used once has languages,
`aalt` apart, and every routine that is called by its name has rules. -/
theorem bookStatements_wellScoped_iff {base b' : Book} {fs : List (String × List RoutineId)} {categories : Bool}
    {sts : List Statement} (hbase : base.Unwritten) (hfs : ∀ f ∈ fs, ∀ i ∈ f.2, i < base.routines.size)
    (hrun : (bookStatements categories).on (base.addFeatures fs) = (.ok sts, b')) (hnames : NamesApart b') :
    WellScoped sts ↔
      (∀ u ∈ uses fs, UsedOnce b' (uses fs) u.2 → u.1 = "aalt" ∨ (base.routine u.2).languages.isEmpty = true) ∧
      (∀ u ∈ uses fs, ¬UsedOnce b' (uses fs) u.2 → base.ruleIds u.2 ≠ []) ∧
      ∀ i, b'.ChainCalled i → base.ruleIds i ≠ [] := by
  have featured := (Featured.refl hbase.features hbase.unused).addFeatures hfs
  have outline := bookStatements_outline hbase featured hrun
  rw [outline.wellScoped_iff hnames]
  have once {i} (hi : i ∈ b'.order) : (b'.routine i).usecount = 1 ↔ UsedOnce b' (uses fs) i := outline.once i hi
  have alone {i} (hi : i ∈ b'.order) : standsAlone b' i = true ↔ base.ruleIds i ≠ [] ∧ ¬UsedOnce b' (uses fs) i := by
    rw [← once hi, ← outline.ruleIds i hi]
    simp [standsAlone]
  have full {tag i} (hi : i ∈ b'.order) : inlined b' tag i = true ↔
      (tag = "aalt" ∨ (base.routine i).languages.isEmpty = true) ∧ UsedOnce b' (uses fs) i := by
    rw [← once hi, ← outline.languages i hi]
    simp [inlined]
  constructor
  · intro hcalled
    refine ⟨fun u hu honce => ?_, fun u hu honce => ?_, fun i hi => ?_⟩
    · by_contra hnot
      have hin : inlined b' u.1 u.2 = false := by
        rw [← Bool.not_eq_true, full (outline.used u hu)]
        exact fun hin => hnot hin.1
      exact ((alone (outline.used u hu)).1 (hcalled u.2 (.inr ⟨u.1, hu, hin⟩))).2 honce
    · have hin : inlined b' u.1 u.2 = false := by
        rw [← Bool.not_eq_true, full (outline.used u hu)]
        exact fun hin => honce hin.2
      exact ((alone (outline.used u hu)).1 (hcalled u.2 (.inr ⟨u.1, hu, hin⟩))).1
    · exact ((alone (outline.mem_order (.inl hi))).1 (hcalled i (.inl hi))).1
  · rintro ⟨hlanguages, hused, hchained⟩ i hi
    have hmem := outline.mem_order hi
    rw [alone hmem]
    rcases hi with hi | ⟨tag, hu, hin⟩
    · exact ⟨hchained i hi, fun honce => honce.2 hi⟩
    · have honce : ¬UsedOnce b' (uses fs) i := by
        intro honce
        rw [(full hmem).2 ⟨hlanguages _ hu honce, honce⟩] at hin
        cases hin
      exact ⟨hused _ hu honce, honce⟩

section Sample

def callsBare (b : Book) : Lookup → Bool
  | .bare j => j < b.routines.size
  | .ref _ => false

def holdsRules (b : Book) : RoutineContent → Bool
  | .rules ids => ids.all (· < b.rules.size)
  | _ => false

lemma unwritten_of_bare (hfeatures : b.features = []) (horder : b.order = [])
    (hroutines : ∀ r ∈ b.routines, r.usecount = 0 ∧ holdsRules b r.content)
    (hrules : ∀ r ∈ b.rules, r.group? = none ∧ (∀ l ∈ r.chained.entries, callsBare b l) ∧
      (r.isChain = false → (r.calls.getD []).entries = [])) : b.Unwritten := by
  have routine {j} (hj : j < b.routines.size) : b.routine j ∈ b.routines := by
    rw [routine_eq, Array.getElem?_eq_getElem hj]
    exact Array.getElem_mem hj
  have rule := forall_rule hrules ⟨rfl, forall_mem_nil _, fun _ => rfl⟩
  have bare {id l} hl : callsBare b l = true := (rule id).2.1 l hl
  exact {
    features := hfeatures
    unused := fun j => by
      by_cases hj : j < b.routines.size
      · exact (hroutines _ (routine hj)).1
      · rw [routine_of_size_le (Nat.le_of_not_lt hj)]
    nodup := by rw [horder]; exact nodup_nil
    within := by simp [horder]
    plain := fun i hi => by
      have holds := (hroutines _ (routine hi)).2
      cases hcontent : (b.routine i).content with
      | rules ids =>
        rw [hcontent] at holds
        exact ⟨ids, rfl, by simpa [holdsRules] using holds⟩
      | extension _ | missing =>
        rw [hcontent] at holds
        cases holds
    coherent := coherent_of_ungrouped fun r hr => (hrules r hr).1
    bare := fun id j hj => by simpa [callsBare] using bare hj
    names := fun id n i hl => by cases bare hl
    chains := fun id => (rule id).2.2 }

lemma on_eq_of_isOk {x : Act α} {b} (h : (x.on b).1.isOk) : ∃ a, x.on b = (.ok a, (x.on b).2) := by
  obtain ⟨a, ha⟩ := Step.exists_of_isOk h
  exact ⟨a, Prod.ext ha rfl⟩

def plainRule : Rule := Rule.ofBody (.substitution { input := some [["a"]], replacement := some [["b"]] })

def swashBook : Book :=
  { routines := #[{ name := some "swash", content := .rules [0], languages := .pairs [("latn", "dflt")] },
      { name := some "context", content := .rules [1] },
      { name := some "every", content := .rules [2], languages := .pairs [("latn", "dflt")] }]
    rules := #[plainRule, Rule.ofBody (.chaining { input := some [["a"]], calls := [some [.bare 0]] }), plainRule] }

lemma swashBook_unwritten : swashBook.Unwritten := unwritten_of_bare rfl rfl (by decide) (by decide)

/-- A chain calls the first routine, so that it stands alone, and `aalt` takes the last. -/
theorem bookStatements_wellScoped_shared : ∃ sts b',
    (bookStatements false).on (swashBook.addFeatures [("aalt", [2]), ("liga", [1, 0])]) = (.ok sts, b') ∧
      NamesApart b' ∧ WellScoped sts := by
  obtain ⟨sts, hrun⟩ := on_eq_of_isOk (x := bookStatements false)
    (b := swashBook.addFeatures [("aalt", [2]), ("liga", [1, 0])]) (by decide +kernel)
  have apart : NamesApart ((bookStatements false).on (swashBook.addFeatures [("aalt", [2]), ("liga", [1, 0])])).2 :=
    ⟨by decide +kernel, by decide +kernel⟩
  have rules : ∀ k ∈ ((bookStatements false).on (swashBook.addFeatures [("aalt", [2]), ("liga", [1, 0])])).2.order,
      ∀ i ∈ ((bookStatements false).on (swashBook.addFeatures [("aalt", [2]), ("liga", [1, 0])])).2.callees k,
      swashBook.ruleIds i ≠ [] := by decide +kernel
  refine ⟨sts, _, hrun, apart, (bookStatements_wellScoped_iff swashBook_unwritten (by decide) hrun apart).2
    ⟨by decide +kernel, by decide +kernel, ?_⟩⟩
  rintro i ⟨k, hk, hi⟩
  exact rules k hk i hi

/-- **A routine with languages that is used once is called and not defined.** -/
theorem bookStatements_once_undefined : ∃ sts b',
    (bookStatements false).on (swashBook.addFeatures [("liga", [0])]) = (.ok sts, b') ∧
      NamesApart b' ∧ ¬WellScoped sts := by
  obtain ⟨sts, hrun⟩ := on_eq_of_isOk (x := bookStatements false)
    (b := swashBook.addFeatures [("liga", [0])]) (by decide +kernel)
  refine ⟨sts, _, hrun, ⟨by decide +kernel, by decide +kernel⟩, ?_⟩
  have undefined : ((bookStatements false).on (swashBook.addFeatures [("liga", [0])])).1.toOption.map
      (fun sts => decide (WellScoped sts)) = some false := by decide +kernel
  rw [hrun] at undefined
  exact of_decide_eq_false (Option.some.inj undefined)

end Sample

end GlyphRules.Feature
