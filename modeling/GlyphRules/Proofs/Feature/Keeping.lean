import GlyphRules.Proofs.Feature.LookupNames

/-! What writing keeps of a book.

To write a routine, a book is prepared and routines are split into parts, so routines and rules may
be added. What stays (`Kept`) are the order and the features, and of every routine its rules,
languages and use count. What has no name may be given one. -/
namespace GlyphRules

open Step List Rule Book

def Lookup.TakesName (b : Book) (l l' : Lookup) : Prop :=
  l' = l ∨ ∃ n i, l = .ref ⟨some n, some i⟩ ∧ Unnamed n ∧
    l' = .ref ⟨some (b.routine i).name, some i⟩ ∧ ¬Unnamed (b.routine i).name

def Lookup.Ready (l : Lookup) : Prop := ∃ n i, l = .ref ⟨some (some n), some i⟩ ∧ n ≠ ""

def Book.CallsKnown (b : Book) (id : RuleId) : Prop :=
  ∀ l ∈ (b.rule id).chained.entries, ∃ n i, l = .ref ⟨n, some i⟩ ∧ i < b.routines.size

structure Book.CallsReady (b : Book) (id : RuleId) : Prop where
  known : b.CallsKnown id
  ready : ∀ l ∈ (b.rule id).chained.entries, l.Ready

structure Book.Prepared (b : Book) (i : RoutineId) (n : String) (ids : List RuleId) : Prop where
  size : i < b.routines.size
  content : (b.routine i).content = .rules ids
  name : (b.routine i).name = some n
  named : n ≠ ""
  rules : ∀ id ∈ ids, id < b.rules.size ∧ b.CallsReady id

structure Routine.Kept (r r' : Routine) : Prop where
  content : r'.content = r.content
  languages : r'.languages = r.languages
  usecount : r'.usecount = r.usecount
  name : r'.name = r.name ∨ Unnamed r.name

lemma Routine.Kept.refl (r : Routine) : r.Kept r := ⟨rfl, rfl, rfl, .inl rfl⟩

lemma Routine.Kept.trans {r r' r'' : Routine} (h : r.Kept r') (h' : r'.Kept r'') : r.Kept r'' := by
  refine ⟨h'.content.trans h.content, h'.languages.trans h.languages, h'.usecount.trans h.usecount, ?_⟩
  rcases h.name with heq | hnone
  · rw [← heq]
    exact h'.name
  · exact .inr hnone

structure Kept (b b' : Book) : Prop where
  order : b'.order = b.order
  features : b'.features = b.features
  routines : b.routines.size ≤ b'.routines.size
  rules : b.rules.size ≤ b'.rules.size
  routine : ∀ j < b.routines.size, (b.routine j).Kept (b'.routine j)
  rule : ∀ id < b.rules.size, b.CallsKnown id →
    Forall₂ (Lookup.TakesName b') (b.rule id).chained.entries (b'.rule id).chained.entries

namespace Kept
variable {b b' b'' : Book}

lemma refl (b) : Kept b b :=
  ⟨rfl, rfl, le_rfl, le_rfl, fun _ _ => .refl _, fun _ _ _ => List.forall₂_same.2 fun _ _ => .inl rfl⟩

section
variable (h : Kept b b')
include h

lemma callsKnown {id : RuleId} (hid : id < b.rules.size) (hcalls : b.CallsKnown id) : b'.CallsKnown id := by
  intro l' hl'
  obtain ⟨l, hl, htakes⟩ := forall₂_mem_right (h.rule id hid hcalls) hl'
  obtain ⟨n, i, rfl, hi⟩ := hcalls l hl
  rcases htakes with rfl | ⟨n, i, heq, -, rfl, -⟩
  · exact ⟨n, i, rfl, hi.trans_le h.routines⟩
  · cases heq
    exact ⟨_, i, rfl, hi.trans_le h.routines⟩

lemma takesName {l l' : Lookup} (hl : ∃ n i, l = .ref ⟨n, some i⟩ ∧ i < b.routines.size)
    (htakes : l.TakesName b l') : l.TakesName b' l' := by
  obtain ⟨n, i, rfl, hi⟩ := hl
  rcases htakes with heq | ⟨n, i, hl, hnone, rfl, hname⟩
  · exact .inl heq
  · cases hl
    have keep : (b'.routine i).name = (b.routine i).name := (h.routine i hi).name.resolve_right hname
    exact .inr ⟨_, i, rfl, hnone, by rw [keep], keep ▸ hname⟩

section
variable {id : RuleId} (hid : id < b.rules.size) (hs : b.CallsReady id)
include hid hs

lemma entries : (b'.rule id).chained.entries = (b.rule id).chained.entries := by
  have related := (List.forall₂_and_left _ _).2 ⟨hs.ready, h.rule id hid hs.known⟩
  refine (List.forall₂_eq_eq_eq ▸ related.imp ?_).symm
  rintro l l' ⟨⟨n, i, rfl, hn⟩, heq | ⟨_, _, hl, hnone, -⟩⟩
  · exact heq.symm
  · cases hl
    exact absurd hnone hn

lemma callsReady : b'.CallsReady id :=
  ⟨h.callsKnown hid hs.known, by rw [h.entries hid hs]; exact hs.ready⟩

end

lemma allReady {ids : List RuleId} (hids : ∀ id ∈ ids, id < b.rules.size ∧ b.CallsReady id) :
    ∀ id ∈ ids, id < b'.rules.size ∧ b'.CallsReady id := by
  intro id hid
  obtain ⟨hlt, hready⟩ := hids id hid
  exact ⟨hlt.trans_le h.rules, h.callsReady hlt hready⟩

lemma allKnown {ids : List RuleId} (hids : ∀ id ∈ ids, id < b.rules.size ∧ b.CallsKnown id) :
    ∀ id ∈ ids, id < b'.rules.size ∧ b'.CallsKnown id := by
  intro id hid
  obtain ⟨hlt, hcalls⟩ := hids id hid
  exact ⟨hlt.trans_le h.rules, h.callsKnown hlt hcalls⟩

lemma prepared {ids} (hi : b.Prepared i n ids) : b'.Prepared i n ids := by
  have kept := h.routine i hi.size
  refine ⟨hi.size.trans_le h.routines, kept.content.trans hi.content, ?_, hi.named, h.allReady hi.rules⟩
  rcases kept.name with heq | hnone
  · exact heq.trans hi.name
  · rw [hi.name] at hnone
    exact absurd hnone hi.named

lemma trans (h' : Kept b' b'') : Kept b b'' := by
  refine ⟨h'.order.trans h.order, h'.features.trans h.features, h.routines.trans h'.routines,
    h.rules.trans h'.rules, fun j hj => (h.routine j hj).trans (h'.routine j (hj.trans_le h.routines)),
    fun id hid hcalls => ?_⟩
  have first := (List.forall₂_and_left _ _).2 ⟨hcalls, h.rule id hid hcalls⟩
  have second := h'.rule id (hid.trans_le h.rules) (h.callsKnown hid hcalls)
  refine forall₂_trans ?_ first second
  rintro l l' l'' ⟨⟨n, i, rfl, hi⟩, htakes⟩ (rfl | htakes')
  · exact h'.takesName ⟨n, i, rfl, hi.trans_le h.routines⟩ htakes
  · rcases htakes with rfl | ⟨_, _, -, -, rfl, hname⟩
    · exact .inr htakes'
    · obtain ⟨_, _, hl, hnone, -⟩ := htakes'
      cases hl
      exact absurd hnone hname

end

end Kept

structure Rule.CallsAlike (r r' : Rule) : Prop where
  calls : r'.calls = r.calls
  group : r'.group? = r.group?
  chained : r'.chained = r.chained

lemma Rule.CallsAlike.refl (r : Rule) : r.CallsAlike r := ⟨rfl, rfl, rfl⟩

lemma Book.rule_alterRule (b : Book) (id) (f) (x) :
    (b.alterRule id f).rule x = b.rule x ∨ x = id ∧ (b.alterRule id f).rule x = f (b.rule id) := by
  by_cases hx : x = id
  · subst hx
    by_cases hlt : x < b.rules.size
    · exact .inr ⟨rfl, rule_alterRule_self hlt f⟩
    · exact .inl (by simp [rule_eq, alterRule, hlt])
  · exact .inl (rule_alterRule_ne b hx f)

def Keeping (b b' : Book) : Prop := b.Coherent → Kept b b' ∧ b'.Coherent

instance : Std.Refl Keeping := ⟨fun b hb => ⟨.refl b, hb⟩⟩

instance : Trans Keeping Keeping Keeping := by
  refine ⟨fun h h' hb => ?_⟩
  obtain ⟨kept, hb'⟩ := h hb
  obtain ⟨kept', hb''⟩ := h' hb'
  exact ⟨kept.trans kept', hb''⟩

namespace Keeping
variable {b b' : Book}

lemma of_same (hroutines : b'.routines = b.routines) (hrules : b'.rules = b.rules) (horder : b'.order = b.order)
    (hfeatures : b'.features = b.features) : Keeping b b' := by
  have routine := routine_of_eq hroutines
  have rule := rule_of_eq hrules
  refine fun hb => ⟨⟨horder, hfeatures, by rw [hroutines], by rw [hrules], fun j _ => ?_, fun id _ _ => ?_⟩, ?_⟩
  · rw [routine]
    exact .refl _
  · rw [rule]
    exact List.forall₂_same.2 fun _ _ => .inl rfl
  · intro u id g
    rw [rule, rule]
    exact hb u id g

lemma alterRoutine (b) (i) {f} (hf : (b.routine i).Kept (f (b.routine i))) :
    Keeping b (b.alterRoutine i f) := by
  refine fun hb => ⟨⟨rfl, rfl, (b.size_alterRoutine i f).ge, le_rfl, fun j hj => ?_, fun id _ _ => ?_⟩, hb⟩
  · by_cases hji : j = i
    · subst hji
      rwa [routine_alterRoutine_self hj]
    · rw [b.routine_alterRoutine_ne hji]
      exact .refl _
  · exact List.forall₂_same.2 fun _ _ => .inl rfl

lemma addRoutine (b) (r) : Keeping b (b.addRoutine r).2 := by
  refine fun hb => ⟨⟨rfl, rfl, ?_, le_rfl, fun j hj => ?_, fun id _ _ => ?_⟩, hb⟩
  · simp [Book.addRoutine]
  · rw [b.routine_addRoutine, if_neg hj.ne]
    exact .refl _
  · exact List.forall₂_same.2 fun _ _ => .inl rfl

lemma alterRule (b) (id) {f} (hf : (b.rule id).CallsAlike (f (b.rule id))) :
    Keeping b (b.alterRule id f) := by
  have alike (x) : (b.rule x).CallsAlike ((b.alterRule id f).rule x) := by
    rcases b.rule_alterRule id f x with heq | ⟨rfl, heq⟩
    · rw [heq]
      exact .refl _
    · rwa [heq]
  refine fun hb => ⟨⟨rfl, rfl, le_rfl, ?_, fun _ _ => .refl _, fun x _ _ => ?_⟩, ?_⟩
  · exact Array.size_modify.ge
  · rw [(alike x).chained]
    exact List.forall₂_same.2 fun _ _ => .inl rfl
  · intro u x g
    rw [(alike u).group, (alike x).group, (alike u).calls, (alike x).calls]
    exact hb u x g

lemma addRule (b) {r} (hr : r.group? = none) : Keeping b (b.addRule r).2 := by
  have old {x} (hx : x < b.rules.size) : (b.addRule r).2.rule x = b.rule x := by
    rw [b.rule_addRule, if_neg hx.ne]
  refine fun hb => ⟨⟨rfl, rfl, le_rfl, ?_, fun _ _ => .refl _, fun x hx _ => ?_⟩, fun u x g hu hx => ?_⟩
  · simp [Book.addRule]
  · rw [old hx]
    exact List.forall₂_same.2 fun _ _ => .inl rfl
  · -- The new rule is in no group, so what shares a group is old.
    have grouped {y} (hy : ((b.addRule r).2.rule y).group? = some g) : y < b.rules.size := by
      obtain ⟨c, hc⟩ := chaining_of_group? hy
      have hlt := lt_of_chaining hc
      have hne : y ≠ b.rules.size := by
        rintro rfl
        have new : (b.addRule r).2.rule b.rules.size = r := by simp [Book.rule_eq, Book.addRule]
        rw [new, hr] at hy
        cases hy
      simp only [Book.addRule, Array.size_push] at hlt
      exact Nat.lt_of_le_of_ne (Nat.lt_succ_iff.1 hlt) hne
    have hu' := grouped hu
    have hx' := grouped hx
    rw [old hu'] at hu ⊢
    rw [old hx'] at hx ⊢
    exact hb u x g hu hx

/-- The calls of a chain are given names, with those of its group. -/
lemma setCalls {c} {calls} (hu : (b.rule u).body = .chaining c)
    (h : b.CallsKnown u → Forall₂ (Lookup.TakesName b) c.calls.entries calls.entries) :
    Keeping b (b.setCalls u calls) := by
  intro hb
  have called := Called.of_setCalls (lt_of_chaining hu) calls
  have routine := called.routine
  refine ⟨⟨OnlyRules.order called.rest, OnlyRules.features called.rest, by rw [called.routines],
    called.size.ge, fun j _ => ?_, fun x hx hcalls => ?_⟩, hb.of_called called⟩
  · rw [routine]
    exact .refl _
  · rw [called.rule]
    split
    · next hshares =>
      obtain ⟨c', hc', heq⟩ := hb.alike hu hshares
      have known : b.CallsKnown u := by
        intro l hl
        refine hcalls l ?_
        rwa [chained_chaining hc', heq, ← chained_chaining hu]
      rw [chained_chaining hc', heq, chained_chaining (RuleResolves.body_withCalls hc' calls)]
      refine (h known).imp fun l l' htakes => ?_
      unfold Lookup.TakesName
      simp only [routine]
      exact htakes
    · exact List.forall₂_same.2 fun _ _ => .inl rfl

end Keeping

/-- Where steps for all of a list have results, each had its own, between books of which all this is kept. -/
lemma Keeping.on_mapM {α β : Type} {f : α → Act β} (hf : ∀ a, Keeps Keeping (f a)) {l} {rs}
    {b b'} (hb : b.Coherent) (hrun : (l.mapM f).on b = (.ok rs, b')) :
    Forall₂ (fun a r => a ∈ l ∧ ∃ s t, Kept b s ∧ s.Coherent ∧ (f a).on s = (.ok r, t) ∧ Kept t b') l rs := by
  refine ((List.forall₂_and_left _ _).2 ⟨fun a ha => ha, Keeps.on_mapM hf hrun⟩).imp ?_
  rintro a r ⟨ha, s, t, hs, hr, ht⟩
  obtain ⟨before, hs⟩ := hs hb
  obtain ⟨-, ht'⟩ := (hf a).of_on hr hs
  exact ⟨ha, s, t, before, hs, hr, (ht ht').1⟩

namespace Feature

/-! ### Splitting -/

@[grind ←]
lemma keeps_eachCall [Std.Refl R] [Trans R R R] {f}
    (h : ∀ l, Keeps R (f l)) (calls) : Keeps R (eachCall f calls) := by
  unfold eachCall
  grind

section Adds
variable {R : Book → Book → Prop} [Std.Refl R] [Trans R R R] (hroutine : ∀ b r, R b (Book.addRoutine b r).2)
include hroutine

omit [Std.Refl R] [Trans R R R] in
@[grind ←]
lemma keeps_splitOff (of_ : Routine) (label : String) (part : Routine) : Keeps R (splitOff of_ label part) :=
  fun s => hroutine s _

@[grind ←]
lemma keeps_splitInto (of_) (label : κ → String) (part)
    (groups) : Keeps R (splitInto of_ label part groups) := by
  unfold splitInto
  grind

@[grind ←]
lemma keeps_arrangeByType (i) : Keeps R (arrangeByType i) := by
  unfold arrangeByType
  grind

lemma keeps_arrangeByFlags (i) (hrules : ∀ id, Keeps R (defaultFlags id))
    (hflags : ∀ flags b, R b (alterRoutine b i ({ · with flags }))) : Keeps R (arrangeByFlags i) := by
  refine .bind .get fun b => .bind (.forM _ fun id _ => hrules id) fun _ => .bind .get fun b => ?_
  split
  · refine .bind (.modify (hflags _)) fun _ => ?_
    split
    · exact .bind (.modify (hflags _)) fun _ => .pure _
    · exact .throw _
  · grind

end Adds

attribute [grind ←] Keeping.addRoutine

@[grind ←]
lemma keeps_copyCall (l) : Keeps Keeping (copyCall l) := by
  have copied i : Keeps Keeping (copyRoutine i) := fun s => .addRoutine s _
  unfold copyCall
  grind

@[grind ←]
lemma keeps_copyFor (r) (language) : Keeps Keeping (copyFor r language) := by
  unfold copyFor
  split
  · exact .bind (keeps_eachCall keeps_copyCall _) fun _ => fun s => .addRule s rfl
  · exact .bind (keeps_eachCall keeps_copyCall _) fun _ => fun s => .addRule s rfl
  · next hchain hsub => exact fun s => .addRule s (by grind [group?])

@[grind ←]
lemma keeps_languageParts (id) (r) : Keeps Keeping (languageParts id r) := by
  unfold languageParts
  grind

@[grind ←]
lemma keeps_arrangeByLanguage (i) : Keeps Keeping (arrangeByLanguage i) := by
  unfold arrangeByLanguage
  grind

@[grind ←]
lemma keeps_defaultFlags (id) : Keeps Keeping (defaultFlags id) := by
  refine .modify fun b => .alterRule b id ?_
  split <;> exact ⟨rfl, rfl, rfl⟩

@[grind ←]
lemma keeping_arrange (i) : Keeps Keeping (arrange i) := by
  have flags : Keeps Keeping (arrangeByFlags i) := keeps_arrangeByFlags Keeping.addRoutine i keeps_defaultFlags
    fun _ b => .alterRoutine b i ⟨rfl, rfl, rfl, .inl rfl⟩
  unfold arrange arrangeByKind
  grind

end Feature

end GlyphRules
