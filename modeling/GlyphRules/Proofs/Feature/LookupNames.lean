import GlyphRules.Feature.RoutineText
import GlyphRules.Proofs.Book.Resolve

/-! Names of lookups in a feature file.

A lookup is defined by its block, wherever that stands, and called from features and chains. In a
`WellScoped` file whatever is called is defined once. Of the rules only chains call lookups, by the
names of their references (`ofRule_names`). -/
namespace GlyphRules

variable {s : Substitution} {st : Statement} {body sts : List Statement}

def Lookup.given? : Lookup → Option String
  | .ref ⟨some (some n), _⟩ => some n
  | _ => none

def Rule.callNames (r : Rule) : List String := r.chained.entries.filterMap Lookup.given?

def Rule.OnlyRefs (r : Rule) : Prop := ∀ l ∈ r.chained.entries, ∃ x, l = .ref x

namespace Feature

open Step (ok_bind bind_eq_ok)

/-! ### Definitions and calls -/

mutual
def Statement.defines : Statement → List String
  | .lookup n body => n :: definedNames body
  | .block body | .feature _ body | .table _ body => definedNames body
  | _ => []

def definedNames : List Statement → List String
  | [] => []
  | s :: rest => s.defines ++ definedNames rest
end

mutual
def Statement.calls : Statement → List String
  | .call name => name.toList
  | .chain _ _ _ _ calls => ((calls.filterMap id).flatten).filterMap Option.join
  | .lookup _ body | .block body | .feature _ body | .table _ body => calledNames body
  | _ => []

def calledNames : List Statement → List String
  | [] => []
  | s :: rest => s.calls ++ calledNames rest
end

lemma definedNames_eq (sts) : definedNames sts = sts.flatMap Statement.defines := by
  induction sts with
  | nil => simp [definedNames]
  | cons s rest ih => rw [definedNames, ih, List.flatMap_cons]

lemma calledNames_eq (sts) : calledNames sts = sts.flatMap Statement.calls := by
  induction sts with
  | nil => simp [calledNames]
  | cons s rest ih => rw [calledNames, ih, List.flatMap_cons]

/-- **Every lookup that is called is defined once.** -/
def WellScoped (sts : List Statement) : Prop := ∀ n ∈ calledNames sts, (definedNames sts).count n = 1
deriving Decidable

structure Plain (s : Statement) : Prop where
  defines : s.defines = []
  calls : s.calls = []

lemma names_plain (h : ∀ s ∈ sts, Plain s) : sts.flatMap Statement.defines = [] ∧ sts.flatMap Statement.calls = [] :=
  ⟨List.flatMap_eq_nil_iff.2 fun s hs => (h s hs).defines, List.flatMap_eq_nil_iff.2 fun s hs => (h s hs).calls⟩

lemma plain_block (h : ∀ s ∈ body, Plain s) : Plain (.block body) := by
  obtain ⟨defines, calls⟩ := names_plain h
  constructor
  · rw [Statement.defines, definedNames_eq, defines]
  · rw [Statement.calls, calledNames_eq, calls]

/-! ### Rules -/

lemma pairedMultiples_plain
    (h : pairedMultiples s input output = .ok sts) : ∀ st ∈ sts, Plain st := by
  unfold pairedMultiples at h
  split at h
  · dsimp only at h
    split at h
    · cases h
    · split at h
      · cases h
      · cases h
        intro st hst
        obtain ⟨n, hn, rfl⟩ := List.mem_iff_getElem.1 hst
        rw [List.getElem_zipWith]
        exact ⟨rfl, rfl⟩
  · cases h

lemma ofSlots_plain {input output} (h : ofSlots s type input output = .ok st) : Plain st := by
  unfold ofSlots at h
  dsimp only at h
  split at h
  · obtain ⟨g, -, h⟩ := bind_eq_ok.1 h
    cases h
    exact ⟨rfl, rfl⟩
  · split at h
    · cases h
      exact ⟨rfl, rfl⟩
    · split at h
      · obtain ⟨sts, hsts, h⟩ := bind_eq_ok.1 h
        cases h
        exact plain_block (pairedMultiples_plain hsts)
      · obtain ⟨g, -, h⟩ := bind_eq_ok.1 h
        cases h
        exact ⟨rfl, rfl⟩
    · obtain ⟨g, -, h⟩ := bind_eq_ok.1 h
      cases h
      exact ⟨rfl, rfl⟩
    · split at h
      · cases h
        refine plain_block fun st hst => ?_
        obtain ⟨n, -, rfl⟩ := List.mem_map.1 hst
        exact ⟨rfl, rfl⟩
      · cases h
        exact ⟨rfl, rfl⟩
    · cases h
      exact ⟨rfl, rfl⟩
    · cases h

lemma ofSubstitution_plain (h : ofSubstitution s = .ok st) : Plain st := by
  obtain ⟨type, -, h⟩ := bind_eq_ok.1 h
  split at h
  · cases h
    exact ⟨rfl, rfl⟩
  · split at h
    · cases h
    · exact ofSlots_plain h

lemma ofPositioning_plain (h : ofPositioning p = .ok st) : Plain st := by
  unfold ofPositioning at h
  split at h
  · cases h
  · dsimp only at h
    split at h
    · cases h
      exact ⟨rfl, rfl⟩
    · split at h
      · cases h
        exact ⟨rfl, rfl⟩
      · cases h

lemma ofAttachment_plain (h : ofAttachment a = .ok st) : Plain st := by
  unfold ofAttachment at h
  split at h
  · cases h
    refine plain_block fun s hs => ?_
    obtain ⟨g, -, rfl⟩ := List.mem_map.1 hs
    exact ⟨rfl, rfl⟩
  · obtain ⟨sts, hsts, h⟩ := bind_eq_ok.1 h
    cases h
    refine plain_block fun s hs => ?_
    obtain ⟨run, -, hrun⟩ := Step.except_mapM_mem hsts hs
    dsimp only at hrun
    split at hrun
    · cases hrun
      exact ⟨rfl, rfl⟩
    · obtain ⟨glyph, -, hrun⟩ := bind_eq_ok.1 hrun
      cases hrun
      exact ⟨rfl, rfl⟩

lemma flatten_map_calls {α : Type} (f : Lookup → α) (c : Calls) :
    ((c.map fun slot => slot.map fun ls => ls.map f).filterMap id).flatten = c.entries.map f := by
  unfold Calls.entries
  induction c with
  | nil => rfl
  | cons slot c ih =>
    cases slot with
    | none | some ls => simpa using ih

lemma ofChaining_names {r : Rule} {c} (hc : r.body = .chaining c) (hrefs : r.OnlyRefs)
    (h : ofChaining b c r.unwritable = .ok st) : st.defines = [] ∧ st.calls = r.callNames := by
  unfold Rule.OnlyRefs at hrefs
  unfold Rule.callNames
  rw [Rule.chained_chaining hc] at hrefs ⊢
  unfold ofChaining at h
  dsimp only at h
  split at h
  · obtain ⟨stage, -, h⟩ := bind_eq_ok.1 h
    obtain ⟨⟨before, input, after⟩, -, h⟩ := bind_eq_ok.1 h
    cases h
    simp only [Statement.defines, Statement.calls, true_and]
    rw [flatten_map_calls, List.filterMap_map]
    refine List.filterMap_congr fun l hl => ?_
    obtain ⟨⟨name, routine⟩, rfl⟩ := hrefs l hl
    rcases name with _ | _ | n <;> rfl
  · next hgiven =>
    have none : c.calls.entries = [] := by
      refine List.eq_nil_iff_forall_not_mem.2 fun l hl => hgiven ?_
      obtain ⟨ls, hls, -⟩ := Calls.mem_entries.1 hl
      exact List.any_eq_true.2 ⟨_, hls, rfl⟩
    obtain ⟨⟨before, input, after⟩, -, h⟩ := bind_eq_ok.1 h
    cases h
    simp [Statement.defines, Statement.calls, none]

lemma ofRule_names (hrefs : r.OnlyRefs) (h : ofRule b r = .ok st) :
    st.defines = [] ∧ st.calls = r.callNames := by
  have none (hr : ∀ c, r.body ≠ .chaining c) : r.callNames = [] := by
    rw [Rule.callNames, Rule.chained_of_ne hr]
    rfl
  unfold ofRule at h
  split at h
  · next s hs =>
    split at h
    · cases h
    · have plain := ofSubstitution_plain h
      rw [none (by simp [hs])]
      exact ⟨plain.defines, plain.calls⟩
  · next p hp =>
    split at h
    · cases h
    · have plain := ofPositioning_plain h
      rw [none (by simp [hp])]
      exact ⟨plain.defines, plain.calls⟩
  · next c hc => exact ofChaining_names hc hrefs h
  · next a ha =>
    have plain := ofAttachment_plain h
    rw [none (by simp [ha])]
    exact ⟨plain.defines, plain.calls⟩

end Feature
end GlyphRules
