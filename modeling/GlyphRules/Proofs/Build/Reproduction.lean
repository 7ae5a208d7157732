import GlyphRules.Proofs.Build.Meaning
import GlyphRules.Proofs.Build.Builders
import GlyphRules.Proofs.Book.Stage

/-! Routines and the lookups built from them.

A routine of substitutions is built to a lookup that keeps its rules as `Rewrite.stored` says
(`buildRoutine_stored`). It may differ: a class is cut to the size of what is put for it; of two
rules for a glyph the last counts, in shaping the first; longer ligatures come first, and in context
a ligature is taken apart. Whether the two agree can be seen at the windows of the rules
(`buildRoutine_reproduces_iff`). -/
namespace GlyphRules

open Step Shaping List Rewrite

variable {b : Book} {i : RoutineId}

/-! ### Types -/

def Shaping.Rewrite.HasType (w : Rewrite) : Int → Prop
  | 1 => w.inContext = false ∧ w.input.length = 1 ∧ w.output.length = 1
  | 2 => w.inContext = false ∧ w.input.length = 1 ∧ 2 ≤ w.output.length
  | 3 => w.inContext = false
  | 4 => w.inContext = false ∧ 2 ≤ w.input.length ∧ w.output.length = 1
  | 6 => w.inContext = true
  | _ => False

lemma Shaping.IsRewriting.hasType (h : IsRewriting font r) (b : Book) :
    ∃ type, b.lookupType r = .ok (some type) ∧ (ofRule r).HasType type := by
  obtain ⟨s, hs, hi, ho, hb, ha, hreversal, hcalls⟩ := h.sides
  unfold Book.lookupType
  simp only [hs]
  cases hcontext : (ofRule r).inContext with
  | true =>
    have hgiven : (!s.before.isEmpty || !s.after.isEmpty) = true := by
      rwa [hb, ha]
    obtain ⟨o, output, houtput⟩ := exists_cons_of_ne_nil h.shape.ne_nil.2
    refine ⟨6, ?_, hcontext⟩
    unfold Substitution.lookupType
    rw [houtput] at ho
    simp [hreversal, ho, hgiven]
  | false =>
    obtain ⟨hbefore, hafter⟩ := inContext_eq_false.1 hcontext
    have free : s.lookupType false = s.lookupType true := by
      unfold Substitution.lookupType
      rw [hb.trans hbefore, ha.trans hafter]
      rfl
    rw [free]
    obtain ⟨type, htype, hcases⟩ := Feature.lookupType_of_shape hi ho h.shape hreversal hcalls
    refine ⟨type, htype, ?_⟩
    rcases hcases with ⟨rfl | rfl, hin, hout⟩ | ⟨rfl, hin, hout⟩ | ⟨rfl, hin, hout⟩
    · exact ⟨hcontext, hin, hout⟩
    · exact hcontext
    · exact ⟨hcontext, hin, hout⟩
    · exact ⟨hcontext, hin, hout⟩

namespace Build

lemma commonType_eq_ok {type} (h : commonType b rules = .ok type) :
    ∀ r ∈ rules, b.lookupType r = .ok type := by
  obtain ⟨types, htypes, h⟩ := bind_eq_ok.1 h
  intro r hr
  obtain ⟨t, ht, htype⟩ := except_mem_mapM htypes hr
  split at h
  · cases h
  · next hany =>
    cases h
    have hsame : t = types.headD none := by
      by_contra hne
      exact hany (any_eq_true.2 ⟨t, ht, by simpa using hne⟩)
    rw [htype, hsame]

end Build

namespace Build
section Stored
variable {font : Font} {rules : List Rule} (hrules : ∀ r ∈ rules, IsRewriting font r)
include hrules

lemma subContents_stored (hne : rules ≠ []) (htype : ∀ r ∈ rules, b.lookupType r = .ok type)
    {s t} {contents} (hrun : (subContents type rules).on s = (.ok contents, t)) :
    Grows s t ∧ OneKind (rules.map ofRule) ∧
      ∀ u, Grows t u → contents.effect u.contents = stored (rules.map ofRule) := by
  obtain ⟨r₀, hr₀⟩ := exists_mem_of_ne_nil rules hne
  obtain ⟨n, hn, hshape⟩ := (hrules r₀ hr₀).hasType b
  obtain rfl := Except.ok.inj ((htype r₀ hr₀).symm.trans hn)
  have hall : ∀ w ∈ rules.map ofRule, w.HasType n := by
    intro w hw
    obtain ⟨r, hr, rfl⟩ := mem_map.1 hw
    obtain ⟨m, hm, hshape⟩ := (hrules r hr).hasType b
    obtain rfl := Option.some.inj (Except.ok.inj ((htype r hr).symm.trans hm))
    exact hshape
  unfold HasType at hshape
  split at hshape
  · cases (singleContents_on hrules s).symm.trans hrun
    refine ⟨.refl s, .single fun w hw => ⟨(hall w hw).1, (hall w hw).2.1⟩, fun u _ => ?_⟩
    rw [single_effect fun w hw => (hall w hw).2, stored_free fun w hw => (hall w hw).1]
  · cases (multipleContents_on hrules s).symm.trans hrun
    refine ⟨.refl s, .single fun w hw => ⟨(hall w hw).1, (hall w hw).2.1⟩, fun u _ => ?_⟩
    rw [multiple_effect fun w hw => (hall w hw).2, stored_free fun w hw => (hall w hw).1]
  · cases hrun
  · cases (ligatureContents_on hrules s).symm.trans hrun
    refine ⟨.refl s, .ligature fun w hw => ⟨(hall w hw).1, (hall w hw).2.1⟩, fun u _ => ?_⟩
    rw [ligature_effect fun w hw => (hall w hw).2, stored_free fun w hw => (hall w hw).1]
  · obtain ⟨crs, u, hcrs, hgrows, hreal⟩ := subChainRules_on hrules s
    cases (on_bind_ok hcrs _).symm.trans hrun
    have hnonempty : rules.map ofRule ≠ [] := fun h => hne (map_eq_nil_iff.1 h)
    refine ⟨hgrows, .context hnonempty hall, fun v hv => ?_⟩
    rw [stored_context hnonempty hall]
    exact chain_effect (List.forall₂_map_left_iff.2 (hreal.imp fun _ _ h => h.grow hv))
  · exact hshape.elim

end Stored
end Build

lemma Book.routineStageWithin_ne_pos
    (h : ∀ r ∈ b.ruleIdsWithin fuel i, ∃ s, (b.rule r).body = .substitution s) :
    b.routineStageWithin fuel i ≠ .ok (some .pos) := by
  intro hpos
  induction fuel generalizing i with
  | zero => cases hpos
  | succ fuel ih =>
    unfold ruleIdsWithin at h
    unfold routineStageWithin at hpos
    cases hcontent : (b.routine i).content with
    | missing =>
      rw [hcontent] at hpos
      cases hpos
    | rules ids =>
      rw [hcontent] at h hpos
      cases ids with
      | nil => cases hpos
      | cons r ids =>
        obtain ⟨s, hs⟩ := h r (.head _)
        simp only [hs] at hpos
        cases hpos
    | extension rs =>
      rw [hcontent] at h hpos
      cases rs with
      | nil => cases hpos
      | cons j rs => exact ih (fun r hr => h r (mem_flatMap.2 ⟨j, mem_cons_self .., hr⟩)) hpos

lemma Book.routineStage_flags (b : Book) (i) (flags) :
    (b.alterRoutine i fun r => { r with flags }).routineStage i = b.routineStage i := by
  rw [routineStage, size_alterRoutine]
  refine routineStageWithin_congr (fun j => ?_) _ i
  have hcontent : ((b.alterRoutine i fun r => { r with flags }).routine j).content = (b.routine j).content :=
    routine_alterRoutine_eq b i (fun r => by rfl) j
  rw [lead, hcontent]
  rfl

namespace Build

lemma buildRoutine_eq_ok {ids}
    (hsub : ∀ r ∈ w.book.rulesOf i, ∃ s, r.body = .substitution s) (h : (buildRoutine i).on w = (.ok ids, w')) :
    ∃ type contents flags t, commonType w.book (w.book.rulesOf i) = .ok type ∧ w.book.rulesOf i ≠ [] ∧
        (subContents type (w.book.rulesOf i)).on
          { w with book := w.book.alterRoutine i fun r => { r with flags } } = (.ok contents, t) ∧
        w'.builders = (t.push { contents, flags }).builders ∧
        ids = (List.range (t.builders.size + 1)).drop w.builders.size := by
  obtain ⟨type, flags, stage, htype, hne, -, hstage, h⟩ := buildRoutine_inv h
  have hpos : ¬(stage == some .pos) = true := by
    intro heq
    refine Book.routineStageWithin_ne_pos (fun _ hr => hsub _ (mem_map_of_mem hr)) ?_
    rwa [← Book.routineStage, ← w.book.routineStage_flags i flags, ← eq_of_beq heq]
  rw [if_neg hpos] at h
  obtain ⟨contents, t, hcontents, h⟩ := on_bind_eq_ok h
  cases h
  exact ⟨type, contents, flags, t, htype, hne, hcontents, rfl, rfl⟩

lemma buildRoutine_stored {ids} {font}
    (hrules : ∀ r ∈ w.book.rulesOf i, IsRewriting font r) (hbuild : (buildRoutine i).on w = (.ok ids, w')) :
    ∃ own, ids.getLast? = some own ∧ OneKind ((w.book.rulesOf i).map ofRule) ∧
      w'.effect own = stored ((w.book.rulesOf i).map ofRule) := by
  obtain ⟨type, contents, flags, t, hcommon, hne, hcontents, hbuilders, rfl⟩ := buildRoutine_eq_ok
    (fun r hr => (hrules r hr).body.imp fun _ h => h.1) hbuild
  obtain ⟨hgrows, hkind, heffect⟩ := subContents_stored hrules hne (commonType_eq_ok hcommon) hcontents
  have hsame : w'.contents = (t.push { contents, flags }).contents := by
    unfold Workshop.contents
    rw [hbuilders]
  refine ⟨t.builders.size, ?_, hkind, ?_⟩
  · rw [range_succ, drop_append_of_le_length (by simpa using hgrows.size), List.getLast?_concat]
  · rw [Workshop.effect, hsame, t.contents_push]
    exact heffect _ (t.grows_push _)

/-- **Shaping and the built lookups agree at the windows or nowhere**: the lookup of a routine keeps its rules as
`Rewrite.stored` says. Shaping goes on as the lookup does from every place exactly if they take the same step
wherever a rule can be read. Then they also leave the same of every buffer, and for rules without context
only then. -/
theorem buildRoutine_reproduces_iff {w w' : Workshop} {i : RoutineId} {ids : List BuilderId} {font : Font}
    (hrules : ∀ r ∈ w.book.rulesOf i, IsRewriting font r) (hbuild : (buildRoutine i).on w = (.ok ids, w')) :
    ∃ own, ids.getLast? = some own ∧ w'.effect own = stored ((w.book.rulesOf i).map ofRule) ∧
      (GoesOnAs font (w.book.rulesOf i) (w'.effect own) ↔ Rewrite.Reproduces ((w.book.rulesOf i).map ofRule)) ∧
      (Rewrite.Reproduces ((w.book.rulesOf i).map ofRule) → ShapesAs font (w.book.rulesOf i) (w'.effect own)) ∧
      ((∀ r ∈ w.book.rulesOf i, r.hasContext = false) → ShapesAs font (w.book.rulesOf i) (w'.effect own) →
        Rewrite.Reproduces ((w.book.rulesOf i).map ofRule)) := by
  obtain ⟨own, hown, hkind, heffect⟩ := buildRoutine_stored hrules hbuild
  have hapt : ∀ v ∈ (w.book.rulesOf i).map ofRule, v.Apt := by
    intro v hv
    obtain ⟨r, hr, rfl⟩ := List.mem_map.1 hv
    exact ⟨(hrules r hr).shape, fun slot hslot => ((hrules r hr).input slot hslot).1⟩
  have hgoes := hkind.goesOn_iff hapt
  refine ⟨own, hown, heffect, ?_⟩
  rw [heffect, goesOnAs_iff hrules, shapesAs_iff hrules]
  refine ⟨hgoes, fun hsame => hgoes.2 hsame [], fun hfree hsame => ?_⟩
  refine reproduces_of_sweeps hapt hkind (fun v hv => ?_) hsame
  obtain ⟨r, hr, rfl⟩ := List.mem_map.1 hv
  exact hfree r hr

section Sample

/-- Letters, and forms to put for them. -/
def letterFont : Font := ⟨["a", "b", "c", "d", "x"].map fun name => { name }⟩

def ruleWorkshop (r : Rule) : Workshop := { book := { routines := #[{ content := .rules [0] }], rules := #[r] } }

/-- Each of two letters is put for another one, before a third. -/
def beforeX : Rule :=
  { body := .substitution { input := some [["a", "b"]], replacement := some [["c", "d"]], after := [["x"]] } }

/-- Classes of the same size are kept pair by pair, and shaping takes them so. -/
theorem buildRoutine_reproduces_classes : ∃ ids w' own, (buildRoutine 0).on (ruleWorkshop beforeX) = (.ok ids, w') ∧
    ids.getLast? = some own ∧ ShapesAs letterFont [beforeX] (w'.effect own) := by
  have hrules : ∀ r ∈ (ruleWorkshop beforeX).book.rulesOf 0, IsRewriting letterFont r := by
    decide +kernel
  obtain ⟨own, hown, -, -, hshapes, -⟩ := buildRoutine_reproduces_iff hrules rfl
  exact ⟨_, _, own, rfl, hown, hshapes (by decide +kernel)⟩

/-- One letter is put for either of two. -/
def bothToC : Rule := { body := .substitution { input := some [["a", "b"]], replacement := some [["c"]] } }

/-- **A class is cut to the size of what is put for it**: shaping puts the letter for both, and the lookup that is built
for the first one only. -/
theorem buildRoutine_cuts_class : IsRewriting letterFont bothToC ∧
    ∃ ids w' own t, (buildRoutine 0).on (ruleWorkshop bothToC) = (.ok ids, w') ∧ ids.getLast? = some own ∧
      (Shape.applyRoutine [] none none 0).on (sessionOf letterFont [bothToC] ["b"]) = (.ok (), t) ∧
      t.buffer.items.map (·.glyph) = [some "c"] ∧ sweep (w'.effect own) [] ["b"] = ["b"] := by
  have hrules : ∀ r ∈ [bothToC], IsRewriting letterFont r := by decide
  obtain ⟨t, ht, hleaves⟩ := (sessionOf_poised letterFont [bothToC] ["b"]).applyRoutine hrules [] none_ne_pos
  have hrule : sweep (effect ([bothToC].map ofRule)) [] ["b"] = ["c"] :=
    sweep_whole (by decide) (by decide)
  refine ⟨by decide, _, _, 0, t, rfl, rfl, ht, ?_, ?_⟩
  · rw [hleaves, hrule]
    rfl
  · exact (congrArg Prod.fst (step_one _ "b")).symm.trans (by decide +kernel)

end Sample

end Build

end GlyphRules
