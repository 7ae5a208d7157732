import GlyphRules.Proofs.Book.Resolve
import GlyphRules.Proofs.Dict

/-! Books made of features.

Adding a feature puts its routines in force and counts their uses. In a book after any number of
features (`Featured`) the uses are the calls of its features, and account for every use count. -/
namespace GlyphRules

open Book Dict

/-! ### Uses -/

namespace Book

def addFeatures (b : Book) (fs : List (String × List RoutineId)) : Book :=
  fs.foldl (fun b f => b.addFeature f.1 (f.2.map .bare)) b

def FeatureCalls (b : Book) (tag : String) (l : Lookup) : Prop := ∃ f ∈ b.features, f.1 = tag ∧ l ∈ f.2

end Book

def uses (fs : List (String × List RoutineId)) : List (String × RoutineId) :=
  fs.flatMap fun f => f.2.map fun i => (f.1, i)

/-- What a book is after features with certain uses were added to another. -/
structure Featured (base b : Book) (us : List (String × RoutineId)) : Prop where
  rules : b.rules = base.rules
  order : Joined base b
  size : b.routines.size = base.routines.size
  routine : ∀ j, (b.routine j).uncounted = (base.routine j).uncounted
  counts : ∀ j, (b.routine j).usecount = ((us.map (·.2)).count j : Int)
  keys : (b.features.map (·.1)).Nodup
  refs : ∀ tag l, b.FeatureCalls tag l → ∃ n i, l = .ref ⟨n, some i⟩ ∧ i ∈ b.order
  calls : ∀ tag i, (tag, i) ∈ us ↔ ∃ l, b.FeatureCalls tag l ∧ l.routine? = some i

lemma Book.usecount_referTo {b : Book} {i : RoutineId} (hi : i < b.routines.size) (j) :
    ((b.referTo i).2.routine j).usecount = (b.routine j).usecount + if j = i then 1 else 0 := by
  have routines : (b.enforce i).routines = b.routines := congrArg (·.routines) (enforce_spec hi).1
  have routine := routine_of_eq routines
  show (((b.enforce i).alterRoutine i Routine.usedAgain).routine j).usecount = _
  split
  · next hj =>
    rw [hj, routine_alterRoutine_self (by rwa [routines]), routine]
    rfl
  · next hj =>
    rw [routine_alterRoutine_ne _ hj, routine]
    exact (Int.add_zero _).symm

namespace Featured
variable {base b : Book} {us : List (String × RoutineId)}

lemma refl (hfeatures : base.features = []) (hcounts : ∀ j, (base.routine j).usecount = 0) :
    Featured base base [] := by
  refine ⟨rfl, .of_order rfl, rfl, fun _ => rfl, fun j => ?_, ?_, ?_, ?_⟩
  · simp [hcounts]
  · simp [hfeatures]
  · simp [hfeatures, FeatureCalls]
  · simp [hfeatures, FeatureCalls]

section
variable (h : Featured base b us) (tag : String)
include h tag

lemma touch : Featured base { b with features := alter b.features tag [] id } us := by
  have same (tag' l) : { b with features := alter b.features tag [] id }.FeatureCalls tag' l ↔
      b.FeatureCalls tag' l := by
    have plus : (id : List Lookup → List Lookup) = (· ++ []) := by simp [funext_iff]
    unfold FeatureCalls
    rw [plus]
    exact (mem_alter h.keys tag tag' [] l).trans (by simp)
  refine ⟨h.rules, h.order, h.size, h.routine, h.counts, nodup_alter h.keys _ _ _, ?_, ?_⟩
  · intro tag' l hl
    exact h.refs tag' l ((same tag' l).1 hl)
  · intro tag' i
    simp only [same]
    exact h.calls tag' i

lemma addCall {i : RoutineId} (hi : i < base.routines.size) :
    Featured base (b.addCall tag (.bare i)) (us ++ [(tag, i)]) := by
  have hi' : i < b.routines.size := h.size ▸ hi
  obtain ⟨referred, hmem, href⟩ := referTo_spec hi'
  have features : (b.addCall tag (.bare i)).features = alter b.features tag [] (· ++ [.ref (b.referTo i).1]) := by
    show alter (b.referTo i).2.features tag [] (· ++ [.ref (b.referTo i).1]) = _
    rw [(congrArg (·.features) referred.rest)]
  have calls (tag' l) : (b.addCall tag (.bare i)).FeatureCalls tag' l ↔
      b.FeatureCalls tag' l ∨ tag' = tag ∧ l = .ref (b.referTo i).1 := by
    unfold FeatureCalls
    rw [features, mem_alter h.keys, List.mem_singleton]
  refine ⟨referred.rules.trans h.rules, h.order.trans referred.order h.size, referred.size.trans h.size,
    fun j => (referred.routine j).trans (h.routine j), fun j => ?_, ?_, ?_, ?_⟩
  · refine (usecount_referTo hi' j).trans ?_
    rw [h.counts, List.map_append, List.count_append, Int.natCast_add]
    by_cases hj : j = i
    · simp [hj]
    · simp [hj, Ne.symm hj]
  · rw [features]
    exact nodup_alter h.keys _ _ _
  · intro tag' l hl
    rcases (calls tag' l).1 hl with hl | ⟨-, rfl⟩
    · obtain ⟨n, j, rfl, hj⟩ := h.refs tag' l hl
      exact ⟨n, j, rfl, referred.order.subset hj⟩
    · exact ⟨_, i, rfl, hmem⟩
  · intro tag' j
    rw [List.mem_append, List.mem_singleton, h.calls]
    constructor
    · rintro (⟨l, hl, hj⟩ | heq)
      · exact ⟨l, (calls tag' l).2 (.inl hl), hj⟩
      · cases heq
        exact ⟨_, (calls _ _).2 (.inr ⟨rfl, rfl⟩), by rfl⟩
    · rintro ⟨l, hl, hj⟩
      rcases (calls tag' l).1 hl with hl | ⟨rfl, rfl⟩
      · exact .inl ⟨l, hl, hj⟩
      · cases hj
        exact .inr rfl

lemma addCalls {is : List RoutineId} (his : ∀ i ∈ is, i < base.routines.size) :
    Featured base ((is.map Lookup.bare).foldl (Book.addCall tag) b) (us ++ is.map fun i => (tag, i)) := by
  induction is generalizing b us with
  | nil => simpa using h
  | cons i is ih =>
    have rest := ih (h.addCall tag (his i (by simp))) fun i hi => his i (by simp [hi])
    simpa using rest

end

lemma addFeatures (h : Featured base b us) {fs : List (String × List RoutineId)}
    (hfs : ∀ f ∈ fs, ∀ i ∈ f.2, i < base.routines.size) : Featured base (b.addFeatures fs) (us ++ uses fs) := by
  induction fs generalizing b us with
  | nil => simpa [addFeatures, uses] using h
  | cons f fs ih =>
    have rest := ih ((h.touch f.1).addCalls f.1 (hfs f (by simp))) fun f hf => hfs f (by simp [hf])
    rwa [List.append_assoc] at rest

end Featured

end GlyphRules
