import GlyphRules.Book.Optimise
import GlyphRules.Proofs.Book.Tidy
import GlyphRules.Proofs.Feature.Keeping

/-! Calls of routines that are merged.

When routines are merged, one takes the rules of the other, which goes out of force (`Merging`). A
chain that calls the other itself is made to call the first; calls through references stay. So a
call is left without its routine exactly where a routine that goes out of force was called through a
reference (`mergeNonOverlapping_calls_iff`). -/
namespace GlyphRules

open Step Optimise List Rule Calls Book Option

variable {l l' : Lookup} {b b' : Book} {i : RoutineId} {id u : RuleId} {ids : List RuleId} {at_ place n : Nat}

/-! ### What calls lead to -/

namespace Book

/-- The rules of a routine, and those of the routines that its chains call. -/
inductive Reaches (b : Book) : RoutineId → RuleId → Prop where
  | own {i : RoutineId} {id : RuleId} (hid : id ∈ b.ruleIds i) : b.Reaches i id
  | through {i j : RoutineId} {x id : RuleId} (hx : x ∈ b.ruleIds i) (hcall : some j ∈ dependencies (b.rule x))
      (h : b.Reaches j id) : b.Reaches i id

/-- The rules that calls lead to. -/
def LeadsTo (b : Book) (ls : List Lookup) (id : RuleId) : Prop :=
  ∃ l ∈ ls, ∃ i, l.routine? = some i ∧ b.Reaches i id

structure CallsInForce (b : Book) : Prop where
  features : ∀ f ∈ b.features, ∀ l ∈ f.2, ∃ i ∈ b.order, l.routine? = some i
  chains : ∀ u ∈ b.allRules, ∀ l ∈ (b.rule u).chained.entries, ∃ i ∈ b.order, l.routine? = some i

/-- Features and chains in force, position by position, lead to what they led to. -/
structure StillLeads (b b' : Book) : Prop where
  features : Forall₂ (fun f f' => f'.1 = f.1 ∧ ∀ id, b.LeadsTo f.2 id → b'.LeadsTo f'.2 id) b.features b'.features
  chains : ∀ u ∈ b.allRules, Forall₂
    (fun slot slot' => ∀ id, b.LeadsTo (slot.getD []) id → b'.LeadsTo (slot'.getD []) id)
    (b.rule u).chained (b'.rule u).chained

/-- The routine is called by a feature, or through a reference by a chain in force. -/
def CalledByReference (b : Book) (i : RoutineId) : Prop :=
  (∃ f ∈ b.features, ∃ l ∈ f.2, l.routine? = some i) ∨
    ∃ u ∈ b.allRules, ∃ name, .ref ⟨name, some i⟩ ∈ (b.rule u).chained.entries

/-- Chains in force that call a routine itself are noted there. -/
def UsersNoted (b : Book) : Prop :=
  ∀ u ∈ b.allRules, ∀ j, .bare j ∈ (b.rule u).chained.entries → u ∈ (b.routine j).usedIn

end Book

lemma Rule.chained_of_not_isChain {r : Rule} (h : r.isChain = false) : r.chained = [] := by
  refine chained_of_ne fun c hc => ?_
  rw [isChain, hc] at h
  cases h

lemma Rule.isChain_of_mem_entries {r : Rule} (h : l ∈ r.chained.entries) : r.isChain = true := by
  by_contra hchain
  rw [chained_of_not_isChain (Bool.eq_false_iff.2 hchain)] at h
  cases h

lemma hasChains_eq_false : hasChains b i = false ↔ ∀ id ∈ b.ruleIds i, (b.rule id).isChain = false := by
  simp [hasChains, rulesOf]

/-! ### Testing whether routines can be merged -/

/-- A test adds routines, and changes no more than the flags of rules. -/
structure Tested (b b' : Book) : Prop where
  order : b'.order = b.order
  features : b'.features = b.features
  size : b.routines.size ≤ b'.routines.size
  content : ∀ j < b.routines.size, (b'.routine j).content = (b.routine j).content
  usedIn : ∀ j < b.routines.size, (b'.routine j).usedIn = (b.routine j).usedIn
  body : ∀ id, (b'.rule id).body = (b.rule id).body

namespace Tested

instance : Std.Refl Tested := ⟨fun _ => ⟨rfl, rfl, le_rfl, fun _ _ => rfl, fun _ _ => rfl, fun _ => rfl⟩⟩

instance : Trans Tested Tested Tested where
  trans h h' :=
    { order := h'.order.trans h.order
      features := h'.features.trans h.features
      size := h.size.trans h'.size
      content := fun j hj => (h'.content j (hj.trans_le h.size)).trans (h.content j hj)
      usedIn := fun j hj => (h'.usedIn j (hj.trans_le h.size)).trans (h.usedIn j hj)
      body := fun id => (h'.body id).trans (h.body id) }

lemma addRoutine (b) (r) : Tested b (b.addRoutine r).2 := by
  refine ⟨rfl, rfl, by simp [Book.addRoutine], fun j hj => ?_, fun j hj => ?_, fun _ => rfl⟩
  all_goals rw [b.routine_addRoutine, if_neg hj.ne]

end Tested

lemma tested_defaultFlags (id) : Keeps Tested (Feature.defaultFlags id) := by
  refine .modify fun b => ⟨rfl, rfl, le_rfl, fun _ _ => rfl, fun _ _ => rfl, fun x => ?_⟩
  rcases b.rule_alterRule id (fun r => if r.flags.counts then r else { r with flags := .bits 0 }) x with
    heq | ⟨rfl, heq⟩
  · rw [heq]
  · rw [heq]
    split <;> rfl

lemma tested_compatible (l r) : Keeps Tested (compatible l r) := by
  intro b
  rw [compatible, on_get_bind, on_bind_ok (on_set b _)]
  -- The rules of both have been put together in a new routine.
  refine Trans.trans (Tested.addRoutine b _)
    (Keeps.bind (Feature.keeps_arrangeByType Tested.addRoutine _) (fun parts => ?_) _)
  split
  · exact .pure _
  · refine .bind (Feature.keeps_arrangeByFlags Tested.addRoutine _ tested_defaultFlags fun flags b => ?_) fun _ => .pure _
    have content (r : Routine) : ({ r with flags }).content = r.content := rfl
    have usedIn (r : Routine) : ({ r with flags }).usedIn = r.usedIn := rfl
    exact ⟨rfl, rfl, by simp, fun j _ => b.routine_alterRoutine_eq _ content j,
      fun j _ => b.routine_alterRoutine_eq _ usedIn j, fun _ => rfl⟩

lemma tested_nonOverlapping (l r) : Keeps Tested (nonOverlapping l r) := by
  refine .bind .get fun b => .bind (.ofExcept _) fun apart => ?_
  split
  · exact tested_compatible l r
  · exact .pure _

/-! ### Calling the first of two routines -/

def Calls.mapEach (f : Lookup → Lookup) (c : Calls) : Calls := c.map (Option.map (List.map f))

namespace Calls
variable {c : Calls} {f g : Lookup → Lookup}

lemma mapEach_congr (h : ∀ l ∈ c.entries, f l = g l) : c.mapEach f = c.mapEach g := by
  refine map_congr_left fun slot hslot => ?_
  cases slot with
  | none => rfl
  | some ls => exact congrArg some (map_congr_left fun l hl => h l (mem_entries.2 ⟨ls, hslot, hl⟩))

lemma mapEach_of_eq (h : ∀ l ∈ c.entries, f l = l) : c.mapEach f = c :=
  (mapEach_congr h).trans (by simp [mapEach])

lemma mapEach_mapEach (f g) (c : Calls) : (c.mapEach f).mapEach g = c.mapEach (g ∘ f) := by
  simp [mapEach]

lemma mem_entries_mapEach : l' ∈ (c.mapEach f).entries ↔ ∃ l ∈ c.entries, f l = l' := by
  simp only [mem_entries, mapEach, List.mem_map]
  constructor
  · rintro ⟨_, ⟨slot, hslot, heq⟩, hl'⟩
    obtain ⟨ls, rfl, rfl⟩ := map_eq_some_iff.1 heq
    obtain ⟨l, hl, rfl⟩ := mem_map.1 hl'
    exact ⟨l, ⟨ls, hslot, hl⟩, rfl⟩
  · rintro ⟨l, ⟨ls, hslot, hl⟩, rfl⟩
    exact ⟨ls.map f, ⟨some ls, hslot, rfl⟩, mem_map_of_mem hl⟩

end Calls

lemma firstInstead_eq (l r) : firstInstead l r (.bare r) = .bare l := by
  simp [firstInstead]

lemma firstInstead_of_ne {x} (h : x ≠ .bare r) (l) : firstInstead l r x = x := by
  simp [firstInstead, h]

lemma firstInstead_idem (l r) : firstInstead l r ∘ firstInstead l r = firstInstead l r := by
  funext x
  by_cases hx : x = .bare r
  · subst hx
    simp [firstInstead]
  · simp [firstInstead, hx]

/-- Chains, and all of `users` that are chains, call the first of two routines instead of the second. -/
structure Instead (l r : RoutineId) (users : RuleId → Prop) (b b' : Book) : Prop where
  isChain : ∀ id, (b'.rule id).isChain = (b.rule id).isChain
  chained : ∀ id, (b'.rule id).chained = (b.rule id).chained ∨
    (b'.rule id).chained = (b.rule id).chained.mapEach (firstInstead l r)
  user : ∀ id, users id → (b'.rule id).chained = (b.rule id).chained.mapEach (firstInstead l r)
  coherent : b'.Coherent

namespace Instead
variable {l r : RoutineId} {users more : RuleId → Prop} {b'' : Book}

lemma refl (hb : b.Coherent) : Instead l r (fun _ => False) b b :=
  ⟨fun _ => rfl, fun _ => .inl rfl, fun _ h => h.elim, hb⟩

lemma chained_twice (h : Instead l r users b b') (id) :
    (b'.rule id).chained.mapEach (firstInstead l r) = (b.rule id).chained.mapEach (firstInstead l r) := by
  rcases h.chained id with heq | heq
  · rw [heq]
  · rw [heq, mapEach_mapEach, firstInstead_idem]

lemma trans (h : Instead l r users b b') (h' : Instead l r more b' b'') :
    Instead l r (fun id => users id ∨ more id) b b'' := by
  refine ⟨fun id => (h'.isChain id).trans (h.isChain id), fun id => ?_, fun id hid => ?_, h'.coherent⟩
  · rcases h'.chained id with heq | heq
    · rw [heq]
      exact h.chained id
    · rw [heq, h.chained_twice]
      exact .inr rfl
  · rcases hid with hid | hid
    · rcases h'.chained id with heq | heq
      · rw [heq, h.user id hid]
      · rw [heq, h.chained_twice]
    · rw [h'.user id hid, h.chained_twice]

end Instead

lemma callFirst_instead (hb : b.Coherent) (l r) (user) :
    ∃ b', (callFirst l r user).on b = (.ok (), b') ∧ OnlyRules b b' ∧ Instead l r (· = user) b b' := by
  refine ⟨_, on_modify _ b, ?_⟩
  by_cases hlt : user < b.rules.size
  · have called := Called.of_setCalls hlt (Calls.mapEach (firstInstead l r) ((b.rule user).calls.getD []))
    -- What shares its calls with the user had the same ones.
    have shared (id) (hs : b.shares user id = true) :
        ((b.rule id).withCalls (Calls.mapEach (firstInstead l r) ((b.rule user).calls.getD []))).chained =
          (b.rule id).chained.mapEach (firstInstead l r) := by
      have calls : (b.rule id).calls = (b.rule user).calls := by
        rcases shares_iff.1 hs with rfl | ⟨g, hu, hid⟩
        · rfl
        · exact hb user id g hu hid
      rw [← calls]
      obtain ⟨body, -, -, -, -, -⟩ := b.rule id
      cases body <;> rfl
    refine ⟨called.rest, fun id => ?_, fun id => ?_, ?_, hb.of_called called⟩
    · refine (congrArg Rule.isChain (called.rule id)).trans ?_
      obtain ⟨body, -, -, -, -, -⟩ := b.rule id
      split
      · cases body <;> rfl
      · rfl
    · refine (em (b.shares user id = true)).symm.imp (fun hs => ?_) fun hs => ?_
      · exact congrArg Rule.chained ((called.rule id).trans (if_neg hs))
      · exact (congrArg Rule.chained ((called.rule id).trans (if_pos hs))).trans (shared id hs)
    · rintro id rfl
      have hs : b.shares id id = true := shares_iff.2 (.inl rfl)
      exact (congrArg Rule.chained ((called.rule id).trans (if_pos hs))).trans (shared id hs)
  · rw [setCalls_of_size_le (Nat.le_of_not_lt hlt)]
    refine ⟨rfl, fun _ => rfl, fun _ => .inl rfl, ?_, hb⟩
    rintro id rfl
    rw [rule_of_size_le (Nat.le_of_not_lt hlt)]
    rfl

lemma forM_callFirst_instead (hb : b.Coherent) (l r) (users : List RuleId) :
    ∃ b', (users.forM (callFirst l r)).on b = (.ok (), b') ∧ OnlyRules b b' ∧ Instead l r (· ∈ users) b b' := by
  induction users generalizing b with
  | nil => exact ⟨b, rfl, rfl, by simpa using Instead.refl hb⟩
  | cons user users ih =>
    obtain ⟨b₁, h₁, rest₁, instead₁⟩ := callFirst_instead hb l r user
    obtain ⟨b₂, h₂, rest₂, instead₂⟩ := ih instead₁.coherent
    refine ⟨b₂, (on_bind_ok h₁ _).trans h₂, Trans.trans rest₁ rest₂, ?_⟩
    simpa only [mem_cons] using instead₁.trans instead₂

structure Merges (l r : RoutineId) (b b' : Book) : Prop
    extends Instead l r (· ∈ (b'.routine l).usedIn) b b' where
  order : b'.order = b.order
  features : b'.features = b.features
  size : b'.routines.size = b.routines.size
  content : (b'.routine l).content = ((b.routine l).withRules (b.ruleIds l ++ b.ruleIds r)).content
  usedIn : ∀ u, u ∈ (b'.routine l).usedIn ↔ u ∈ (b.routine l).usedIn ∨ u ∈ (b.routine r).usedIn
  other : ∀ j, j ≠ l → b'.routine j = b.routine j

abbrev Book.noteFused (b : Book) (l r : RoutineId) (x : Routine) : Routine :=
  { x with name := mergedName (b.routine l) (b.routine r), usedIn := mergedUsers (b.routine l) (b.routine r)
           comments := (b.routine l).comments ++ (b.routine r).comments }

/-- A routine has taken the rules of another, before those who call that one are told. -/
def Book.fuse (b : Book) (l r : RoutineId) : Book :=
  (b.setRules l (b.ruleIds l ++ b.ruleIds r)).alterRoutine l (b.noteFused l r)

lemma routine_fuse {l : RoutineId} (hl : l < b.routines.size) (r) :
    (b.fuse l r).routine l = b.noteFused l r ((b.routine l).withRules (b.ruleIds l ++ b.ruleIds r)) := by
  rw [Book.fuse, routine_alterRoutine_self (by simpa [setRules] using hl), setRules, routine_alterRoutine_self hl]

lemma mergeRoutines_on_fuse (l r) (h : ((mergedUsers (b.routine l) (b.routine r)).forM (callFirst l r)).on
    (b.fuse l r) = (.ok (), b')) : (mergeRoutines l r).on b = (.ok (), b') := by
  rw [mergeRoutines, on_get_bind, on_bind_ok (on_modify _ b)]
  exact on_bind_ok ((on_forIn _ _ (b.fuse l r)).trans h) _

lemma mergeRoutines_merges (hb : b.Coherent) {l : RoutineId} (hl : l < b.routines.size) (r) :
    ∃ b', (mergeRoutines l r).on b = (.ok (), b') ∧ Merges l r b b' := by
  obtain ⟨b', hb', only, instead⟩ := forM_callFirst_instead (b := b.fuse l r) hb l r
    (mergedUsers (b.routine l) (b.routine r))
  have own : (b'.routine l).usedIn = mergedUsers (b.routine l) (b.routine r) := by rw [only.routine, routine_fuse hl]
  refine ⟨b', mergeRoutines_on_fuse l r hb', ⟨instead.isChain, instead.chained, own ▸ instead.user, instead.coherent⟩,
    only.order, only.features, ?_, ?_, fun u => ?_, fun j hj => ?_⟩
  · rw [only.routines]
    simp [Book.fuse, setRules]
  · rw [only.routine, routine_fuse hl]
  · rw [own]
    by_cases hu : u ∈ (b.routine l).usedIn <;> simp [mergedUsers, hu]
  · rw [only.routine, Book.fuse, routine_alterRoutine_ne _ hj, setRules, routine_alterRoutine_ne _ hj]

/-! ### Books in which routines were merged -/

/-- A plain routine may have taken rules of which `new` holds. -/
inductive RoutineContent.Takes (new : RuleId → Prop) : RoutineContent → RoutineContent → Prop where
  | same (c : RoutineContent) : Takes new c c
  | more {ids ids' : List RuleId} (old : ∀ id ∈ ids, id ∈ ids') (rest : ∀ id ∈ ids', id ∈ ids ∨ new id) :
      Takes new (.rules ids) (.rules ids')

namespace RoutineContent.Takes
variable {new : RuleId → Prop} {c c' c'' : RoutineContent}

lemma trans (h : Takes new c c') (h' : Takes new c' c'') : Takes new c c'' := by
  cases h with
  | same => exact h'
  | more old rest =>
    cases h' with
    | same => exact .more old rest
    | more old' rest' =>
      refine .more (fun id hid => old' id (old id hid)) fun id hid => ?_
      rcases rest' id hid with hid | hid
      · exact rest id hid
      · exact .inr hid

lemma rules (h : Takes new (.rules ids) c) : ∃ ids', c = .rules ids' ∧ ∀ id ∈ ids, id ∈ ids' := by
  cases h with
  | same => exact ⟨ids, rfl, fun _ h => h⟩
  | more old => exact ⟨_, rfl, old⟩

end RoutineContent.Takes

def HasRulesOf (b b' : Book) (r k : RoutineId) : Prop :=
  k ∈ b.order ∧ ∃ ids, (b'.routine k).content = .rules ids ∧ ∀ id ∈ b.ruleIds r, (b.rule id).isChain = false ∧ id ∈ ids

/-- What a call becomes: where a routine is called itself, another may be called that has its rules. -/
def Lookup.Becomes (b b' : Book) (l l' : Lookup) : Prop :=
  l' = l ∨ ∃ r k, l = .bare r ∧ l' = .bare k ∧ HasRulesOf b b' r k

/-- A book after some of its routines were merged. The routine added first stands for those
that are gone. -/
structure Merging (b b' : Book) : Prop where
  features : b'.features = b.features
  order : ∀ i ∈ b'.order, i ∈ b.order ∨ i = b.routines.size
  gone : ∀ i ∈ b.order, i ∈ b'.order ∨ ∃ k ∈ b'.order, HasRulesOf b b' i k
  size : b.routines.size < b'.routines.size
  content : ∀ j < b.routines.size,
    RoutineContent.Takes (fun id => (b.rule id).isChain = false) (b.routine j).content (b'.routine j).content
  dead : (b'.routine b.routines.size).content = .rules []
  isChain : ∀ id, (b'.rule id).isChain = (b.rule id).isChain
  chained : ∀ id, ∃ f, (∀ l ∈ (b.rule id).chained.entries, l.Becomes b b' (f l)) ∧
    (b'.rule id).chained = (b.rule id).chained.mapEach f
  bare : ∀ u ∈ b.allRules, ∀ j, .bare j ∈ (b'.rule u).chained.entries →
    j ∈ b'.order ∧ j ∈ b.order ∧ u ∈ (b'.routine j).usedIn
  coherent : b'.Coherent

/-- A book of which routines can be merged: a routine in force that has no chains has rules of its own. -/
structure Book.Mergeable (b : Book) : Prop where
  coherent : b.Coherent
  layered : ∃ rank, b.Layered rank
  order : ∀ i ∈ b.order, i < b.routines.size
  plain : ∀ i ∈ b.order, hasChains b i = false → ∃ ids, (b.routine i).content = .rules ids
  calls : b.CallsInForce
  noted : b.usageMarked = true → b.UsersNoted

lemma HasRulesOf.mono {new} {r k} (h : HasRulesOf b b₁ r k)
    (hcontent : (b₁.routine k).content.Takes new (b₂.routine k).content) : HasRulesOf b b₂ r k := by
  obtain ⟨hk, ids, hids, hall⟩ := h
  rw [hids] at hcontent
  obtain ⟨ids', hids', hmore⟩ := hcontent.rules
  exact ⟨hk, ids', hids', fun id hid => ⟨(hall id hid).1, hmore id (hall id hid).2⟩⟩

lemma Lookup.Becomes.mono {new} (h : l.Becomes b b₁ l')
    (hcontent : ∀ k ∈ b.order, (b₁.routine k).content.Takes new (b₂.routine k).content) : l.Becomes b b₂ l' := by
  rcases h with rfl | ⟨r, k, rfl, rfl, hk⟩
  · exact .inl rfl
  · exact .inr ⟨r, k, rfl, rfl, hk.mono (hcontent k hk.1)⟩

namespace Merging
variable {b'' : Book} {rank : RoutineId → Nat}

/-- The rules of a routine: those that it had, and none besides that is a chain. -/
lemma mem_ruleIdsWithin (h : Merging b b') (hlayers : b.Layered rank) (fuel) (hi : i < b.routines.size) :
    (∀ id ∈ b.ruleIdsWithin fuel i, id ∈ b'.ruleIdsWithin fuel i) ∧
      ∀ id ∈ b'.ruleIdsWithin fuel i, id ∈ b.ruleIdsWithin fuel i ∨ (b.rule id).isChain = false := by
  induction fuel generalizing i with
  | zero => exact ⟨fun id hid => hid, fun id hid => .inl hid⟩
  | succ fuel ih =>
    have htakes := h.content i hi
    unfold ruleIdsWithin
    generalize hc : (b.routine i).content = c at htakes
    generalize (b'.routine i).content = c' at htakes
    cases htakes with
    | more old rest => exact ⟨old, rest⟩
    | same =>
      cases c with
      | rules ids | missing => exact ⟨fun id hid => hid, fun id hid => .inl hid⟩
      | extension rs =>
        refine ⟨fun id hid => ?_, fun id hid => ?_⟩
        · obtain ⟨r, hr, hid⟩ := mem_flatMap.1 hid
          exact mem_flatMap.2 ⟨r, hr, (ih (hlayers.2 i rs hc r hr).1).1 id hid⟩
        · obtain ⟨r, hr, hid⟩ := mem_flatMap.1 hid
          rcases (ih (hlayers.2 i rs hc r hr).1).2 id hid with hid | hid
          · exact .inl (mem_flatMap.2 ⟨r, hr, hid⟩)
          · exact .inr hid

lemma mem_ruleIds (h : Merging b b') (hb : b.Mergeable) (hi : i ∈ b.order) :
    (∀ id ∈ b.ruleIds i, id ∈ b'.ruleIds i) ∧ ∀ id ∈ b'.ruleIds i, id ∈ b.ruleIds i ∨ (b.rule id).isChain = false := by
  obtain ⟨rank, hlayers⟩ := hb.layered
  have := hlayers.1 i
  have := h.size
  rw [hlayers.ruleIds_eq (show rank i < b'.routines.size + 1 by omega)]
  exact h.mem_ruleIdsWithin hlayers _ (hb.order i hi)

lemma tested (h : Merging b b') (hb : b.Mergeable) (h' : Tested b' b'') : Merging b b'' := by
  have hsize (j) (hj : j < b.routines.size) : j < b'.routines.size := hj.trans h.size
  have rule (id) : (b''.rule id).chained = (b'.rule id).chained := by
    unfold Rule.chained
    rw [h'.body]
  have isChain (id) : (b''.rule id).isChain = (b'.rule id).isChain := by
    unfold Rule.isChain
    rw [h'.body]
  have content (j) (hj : j < b.routines.size) :
      RoutineContent.Takes (fun _ => False) (b'.routine j).content (b''.routine j).content := by
    rw [h'.content j (hsize j hj)]
    exact .same _
  refine ⟨h'.features.trans h.features, ?_, ?_, h.size.trans_le h'.size, fun j hj => ?_, ?_,
    fun id => (isChain id).trans (h.isChain id), fun id => ?_, fun u hu j hj => ?_, ?_⟩
  · rw [h'.order]
    exact h.order
  · rw [h'.order]
    refine fun i hi => (h.gone i hi).imp_right ?_
    rintro ⟨k, hk, hrules⟩
    exact ⟨k, hk, hrules.mono (content k (hb.order k hrules.1))⟩
  · rw [h'.content j (hsize j hj)]
    exact h.content j hj
  · rw [h'.content _ h.size, h.dead]
  · obtain ⟨f, hf, heq⟩ := h.chained id
    exact ⟨f, fun l hl => (hf l hl).mono fun k hk => content k (hb.order k hk), (rule id).trans heq⟩
  · rw [rule] at hj
    obtain ⟨hin, hbefore, hused⟩ := h.bare u hu j hj
    rw [h'.order, h'.usedIn j (hsize j (hb.order j hbefore))]
    exact ⟨hin, hbefore, hused⟩
  · intro u id g hu hid
    have group (id) : (b''.rule id).group? = (b'.rule id).group? := by
      unfold group?
      rw [h'.body]
    have calls (id) : (b''.rule id).calls = (b'.rule id).calls := by
      unfold calls
      rw [h'.body]
    rw [group] at hu hid
    rw [calls, calls]
    exact h.coherent u id g hu hid

section Step
variable {l r : RoutineId}

lemma hasChains_eq_false_iff (h : Merging b b') (hb : b.Mergeable) (hi : i ∈ b.order) :
    hasChains b' i = false ↔ hasChains b i = false := by
  simp only [hasChains_eq_false, h.isChain]
  obtain ⟨old, new⟩ := h.mem_ruleIds hb hi
  refine ⟨fun hnone id hid => hnone id (old id hid), fun hnone id hid => ?_⟩
  rcases new id hid with hid | hid
  · exact hnone id hid
  · exact hid

lemma takes (h : Merging b b') (h' : Merges l r b' b'') (hl : (b'.routine l).content = .rules ids)
    (hr : hasChains b' r = false) (j) :
    RoutineContent.Takes (fun id => (b.rule id).isChain = false) (b'.routine j).content (b''.routine j).content := by
  by_cases hj : j = l
  · subst hj
    rw [h'.content, content_withRules hl, hl, ruleIds_rules hl]
    refine .more (fun id hid => mem_append_left _ hid) fun id hid => ?_
    refine (mem_append.1 hid).imp_right fun hid => ?_
    rw [← h.isChain]
    exact hasChains_eq_false.1 hr id hid
  · rw [h'.other j hj]
    exact .same _

lemma hasRulesOf_first (hlb : l ∈ b.order) (h' : Merges l r b' b'') (hl : (b'.routine l).content = .rules ids)
    (hi : ∀ id ∈ b.ruleIds i, (b.rule id).isChain = false ∧ id ∈ b'.ruleIds r) : HasRulesOf b b'' i l :=
  ⟨hlb, _, h'.content.trans (content_withRules hl _), fun id hid =>
    ⟨(hi id hid).1, mem_append_right _ (hi id hid).2⟩⟩

/-- In chains in force every call of the second routine itself is changed. -/
lemma chained_eq (h : Merging b b') (h' : Merges l r b' b'') (hu : u ∈ b.allRules) :
    (b''.rule u).chained = (b'.rule u).chained.mapEach (firstInstead l r) := by
  rcases h'.chained u with heq | heq
  · by_cases hcall : .bare r ∈ (b'.rule u).chained.entries
    · exact h'.user u ((h'.usedIn u).2 (.inr (h.bare u hu r hcall).2.2))
    · rw [heq]
      refine (mapEach_of_eq fun x hx => firstInstead_of_ne ?_ l).symm
      rintro rfl
      exact hcall hx
  · exact heq

lemma merged (h : Merging b b') (hb : b.Mergeable) (hl : b'.order[at_]? = some l) (hlb : l ∈ b.order)
    (hids : (b'.routine l).content = .rules ids) (hr : b'.order[place]? = some r)
    (hrb : r ∈ b.order) (hrules : hasChains b' r = false) (hplace : at_ ≠ place)
    (h' : Merges l r b' b'') : Merging b { b'' with order := b''.order.set place b.routines.size } := by
  have stays {i n} (hi : b'.order[n]? = some i) (hn : n ≠ place) : i ∈ b''.order.set place b.routines.size := by
    refine mem_of_getElem? (i := n) ?_
    rw [List.getElem?_set_ne hn.symm, h'.order, hi]
  have first : l ∈ b''.order.set place b.routines.size := stays hl hplace
  have others {i} (hi : i ∈ b'.order) (hne : i ≠ r) : i ∈ b''.order.set place b.routines.size := by
    obtain ⟨n, hn⟩ := mem_iff_getElem?.1 hi
    refine stays hn ?_
    rintro rfl
    rw [hr, some_inj] at hn
    exact hne hn.symm
  have takes := h.takes h' hids hrules
  have given : HasRulesOf b b'' r l := hasRulesOf_first hlb h' hids fun id hid => by
    have hid' := (h.mem_ruleIds hb hrb).1 id hid
    rw [← h.isChain]
    exact ⟨hasChains_eq_false.1 hrules id hid', hid'⟩
  have onward {i} (h : HasRulesOf b b' i r) : HasRulesOf b b'' i l := by
    obtain ⟨-, held, hheld, hall⟩ := h
    refine hasRulesOf_first hlb h' hids fun id hid => ?_
    rw [ruleIds_rules hheld]
    exact hall id hid
  refine ⟨h'.features.trans h.features, fun i hi => ?_, fun i hi => ?_, h'.size ▸ h.size,
    fun j hj => (h.content j hj).trans (takes j), ?_, fun id => (h'.isChain id).trans (h.isChain id), fun id => ?_,
    fun u hu j hj => ?_, h'.coherent⟩
  · rcases mem_or_eq_of_mem_set hi with hi | rfl
    · rw [h'.order] at hi
      exact h.order i hi
    · exact .inr rfl
  · rcases h.gone i hi with hi | ⟨k, hk, hall⟩
    · by_cases hne : i = r
      · subst hne
        exact .inr ⟨l, first, given⟩
      · exact .inl (others hi hne)
    · by_cases hne : k = r
      · subst hne
        exact .inr ⟨l, first, onward hall⟩
      · exact .inr ⟨k, others hk hne, hall.mono (takes k)⟩
  · have hne : b.routines.size ≠ l := (hb.order l hlb).ne'
    exact (congrArg (·.content) (h'.other _ hne)).trans h.dead
  · obtain ⟨f, hf, heq⟩ := h.chained id
    rcases h'.chained id with heq' | heq'
    · exact ⟨f, fun x hx => (hf x hx).mono fun k _ => takes k, heq'.trans heq⟩
    · refine ⟨firstInstead l r ∘ f, fun x hx => ?_, ?_⟩
      · by_cases hfx : f x = .bare r
        · rw [Function.comp_apply, hfx, firstInstead_eq]
          rcases hfx ▸ hf x hx with hsame | ⟨r₀, k, rfl, hk, hall⟩
          · exact .inr ⟨r, l, hsame.symm, rfl, given⟩
          · cases hk
            exact .inr ⟨r₀, l, rfl, rfl, onward hall⟩
        · rw [Function.comp_apply, firstInstead_of_ne hfx]
          exact (hf x hx).mono fun k _ => takes k
      · rwa [← mapEach_mapEach, ← heq]
  · have hj : .bare j ∈ (b''.rule u).chained.entries := hj
    rw [h.chained_eq h' hu] at hj
    obtain ⟨x, hx, hxj⟩ := mem_entries_mapEach.1 hj
    by_cases hxr : x = .bare r
    · subst hxr
      rw [firstInstead_eq] at hxj
      cases hxj
      exact ⟨first, hlb, (h'.usedIn u).2 (.inr (h.bare u hu r hx).2.2)⟩
    · rw [firstInstead_of_ne hxr] at hxj
      subst hxj
      obtain ⟨hin, hbefore, hused⟩ := h.bare u hu j hx
      refine ⟨others hin fun hjr => hxr (hjr ▸ rfl), hbefore, ?_⟩
      by_cases hjl : j = l
      · subst hjl
        exact (h'.usedIn u).2 (.inl hused)
      · exact (congrArg (u ∈ ·.usedIn) (h'.other j hjl)).mpr hused

end Step

lemma filter (h : Merging b b') (hb : b.Mergeable) :
    Merging b { b' with order := b'.order.filter (· != b.routines.size) } := by
  have stays {i} hi hib : i ∈ b'.order.filter (· != b.routines.size) :=
    mem_filter.2 ⟨hi, by simpa using (hb.order i hib).ne⟩
  refine ⟨h.features, fun i hi => h.order i (mem_of_mem_filter hi), fun i hi => ?_, h.size, h.content, h.dead,
    h.isChain, h.chained, fun u hu j hj => ?_, h.coherent⟩
  · rcases h.gone i hi with hin | ⟨k, hk, hall⟩
    · exact .inl (stays hin hi)
    · exact .inr ⟨k, stays hk hall.1, hall⟩
  · obtain ⟨hin, hbefore, hused⟩ := h.bare u hu j hj
    exact ⟨stays hin hbefore, hbefore, hused⟩

end Merging

/-! ### The whole run -/

def Lasting (P : Book → Prop) (b b' : Book) : Prop := P b → P b'

instance (P : Book → Prop) : Std.Refl (Lasting P) := ⟨fun _ h => h⟩

instance (P : Book → Prop) : Trans (Lasting P) (Lasting P) (Lasting P) := ⟨fun h h' hP => h' (h hP)⟩

section Run

lemma getElem?_of_getD_ne {α : Type} {l : List α} {d} (h : l.getD n d ≠ d) : l[n]? = some (l.getD n d) := by
  rw [getD_eq_getElem?_getD] at h ⊢
  cases hn : l[n]? with
  | none =>
    rw [hn] at h
    exact absurd rfl h
  | some a => rfl

lemma Merging.mem_of_ne (h : Merging b b') (hne : b'.order.getD n b.routines.size ≠ b.routines.size) :
    b'.order.getD n b.routines.size ∈ b.order :=
  (h.order _ (mem_of_getElem? (getElem?_of_getD_ne hne))).resolve_right hne

section
variable (hb : b.Mergeable)
include hb

lemma mergeAt_merging {l} (hl : l ∈ b.order) (hplain : hasChains b l = false) (hplace : at_ ≠ place) :
    Keeps (Lasting fun s => Merging b s ∧ s.order[at_]? = some l) (mergeAt b.routines.size l place) := by
  intro s hs
  obtain ⟨h, hat⟩ := hs
  rw [mergeAt, on_get_bind]
  generalize hr : s.order.getD place b.routines.size = r
  by_cases hskip : (hasChains s r || r == b.routines.size) = true
  · rw [if_pos hskip]
    exact ⟨h, hat⟩
  · rw [if_neg hskip]
    obtain ⟨hchains, hne⟩ : hasChains s r = false ∧ r ≠ b.routines.size := by simpa using hskip
    subst hr
    have hrb := h.mem_of_ne hne
    have hrs := getElem?_of_getD_ne hne
    generalize s.order.getD place b.routines.size = r at hchains hne hrb hrs ⊢
    have hchains : hasChains b r = false := (h.hasChains_eq_false_iff hb hrb).1 hchains
    rcases hrun : (nonOverlapping l r).on s with ⟨apart, s₁⟩
    have tested : Tested s s₁ := (tested_nonOverlapping l r).of_on hrun
    have h₁ := h.tested hb tested
    have hat₁ : s₁.order[at_]? = some l := tested.order ▸ hat
    cases apart with
    | error e =>
      rw [on_bind_error hrun]
      exact ⟨h₁, hat₁⟩
    | ok apart =>
      rw [on_bind_ok hrun]
      cases apart with
      | false => exact ⟨h₁, hat₁⟩
      | true =>
        obtain ⟨ids, hids⟩ := hb.plain l hl hplain
        obtain ⟨ids₁, hids₁, -⟩ := (hids ▸ h₁.content l (hb.order l hl)).rules
        obtain ⟨s₂, hmerge, merges⟩ := mergeRoutines_merges h₁.coherent ((hb.order l hl).trans h₁.size) r
        rw [if_pos rfl, on_bind_ok hmerge, on_modify]
        refine ⟨h₁.merged hb hat₁ hl hids₁ (tested.order ▸ hrs) hrb
          ((h₁.hasChains_eq_false_iff hb hrb).2 hchains) hplace merges, ?_⟩
        rw [List.getElem?_set_ne hplace.symm, merges.order, hat₁]

lemma mergeInto_merging (place) : Keeps (Lasting (Merging b)) (mergeInto b.routines.size place) := by
  intro s h
  rw [mergeInto, on_get_bind]
  generalize hl : s.order.getD place b.routines.size = l
  by_cases hskip : (hasChains s l || l == b.routines.size) = true
  · rwa [if_pos hskip]
  · rw [if_neg hskip]
    obtain ⟨hchains, hne⟩ : hasChains s l = false ∧ l ≠ b.routines.size := by simpa using hskip
    subst hl
    have hlb := h.mem_of_ne hne
    have hplain := (h.hasChains_eq_false_iff hb hlb).1 hchains
    refine (Keeps.forM _ (fun later hlater => mergeAt_merging hb hlb hplain ?_) s ⟨h, getElem?_of_getD_ne hne⟩).1
    obtain ⟨n, hn, rfl⟩ := mem_drop_iff_getElem.1 hlater
    rw [getElem_range]
    omega

lemma merging_start (marked : Marked b b₁)
    (hnoted : ∀ u ∈ b.allRules, ∀ j, .bare j ∈ (b.rule u).chained.entries → u ∈ (b₁.routine j).usedIn) :
    Merging b (b₁.addRoutine placeholder).2 := by
  have routine (j) (hj : j < b.routines.size) : (b₁.addRoutine placeholder).2.routine j = b₁.routine j := by
    rw [b₁.routine_addRoutine, if_neg (marked.size ▸ hj.ne)]
  have rule (id) : (b₁.addRoutine placeholder).2.rule id = b.rule id := marked.rule id
  have horder : (b₁.addRoutine placeholder).2.order = b.order := marked.order
  refine ⟨marked.features, fun i hi => .inl (horder ▸ hi), fun i hi => .inl (horder ▸ hi), ?_, fun j hj => ?_, ?_,
    fun x => ?_, fun x => ⟨id, fun l _ => .inl rfl, ?_⟩, fun u hu j hj => ?_, fun u x g hu hx => ?_⟩
  · simp [addRoutine, marked.size]
  · rw [routine j hj, marked.content]
    exact .same _
  · simp [routine_eq, addRoutine, ← marked.size, placeholder]
  · rw [rule]
  · rw [rule]
    exact (mapEach_of_eq fun _ _ => rfl).symm
  · rw [rule] at hj
    obtain ⟨i, hi, heq⟩ := hb.calls.chains u hu _ hj
    cases heq
    rw [horder, routine j (hb.order j hi)]
    exact ⟨hi, hi, hnoted u hu j hj⟩
  · rw [rule] at hu hx ⊢
    rw [rule]
    exact hb.coherent u x g hu hx

lemma markUsage_noted : ∃ b₁, Act.markUsage.on b = (.ok (), b₁) ∧ Marked b b₁ ∧
    ∀ u ∈ b.allRules, ∀ j, .bare j ∈ (b.rule u).chained.entries → u ∈ (b₁.routine j).usedIn := by
  cases hmarked : b.usageMarked with
  | true =>
    refine ⟨b, ?_, .refl b, hb.noted hmarked⟩
    rw [Act.markUsage, on_get_bind, if_pos hmarked]
    rfl
  | false =>
    have known (u) (hu : u ∈ b.allRules) : none ∉ dependencies (b.rule u) := by
      rw [dependencies_eq, List.mem_map]
      rintro ⟨l, hl, hnone⟩
      obtain ⟨i, -, hi⟩ := hb.calls.chains u hu l hl
      rw [hi] at hnone
      cases hnone
    obtain ⟨b₁, hrun, marked, husers⟩ := Act.markUsage_on hmarked known
    refine ⟨b₁, hrun, marked, fun u hu j hj => ?_⟩
    obtain ⟨i, hi, heq⟩ := hb.calls.chains u hu _ hj
    cases heq
    refine ((husers j hi (hb.order j hi)).2 u).2 ⟨hu, ?_⟩
    rw [dependencies_eq]
    exact mem_map.2 ⟨_, hj, rfl⟩

lemma mergeNonOverlapping_merging
    (hrun : mergeNonOverlapping.on b = (e, b')) : Merging b b' := by
  obtain ⟨b₁, hmark, marked, hnoted⟩ := markUsage_noted hb
  rw [mergeNonOverlapping, on_bind_ok hmark, on_get_bind, on_bind_ok (on_set b₁ _)] at hrun
  have start : Merging b (b₁.addRoutine placeholder).2 := merging_start hb marked hnoted
  rw [show (b₁.addRoutine placeholder).1 = b.routines.size from marked.size] at hrun
  generalize (b₁.addRoutine placeholder).2 = b₂ at hrun start
  rcases hloop : ((List.range b₂.order.length).forM (mergeInto b.routines.size)).on b₂ with ⟨out, b₃⟩
  have looped : Merging b b₃ := (Keeps.forM _ fun place _ => mergeInto_merging hb place).of_on hloop start
  cases out with
  | error e =>
    rw [on_bind_error hloop] at hrun
    cases hrun
    exact looped
  | ok =>
    rw [on_bind_ok hloop] at hrun
    cases hrun
    exact looped.filter hb

end

end Run

lemma HasRulesOf.reaches (h : HasRulesOf b b' r k) (hreach : b.Reaches r id) : b'.Reaches k id := by
  obtain ⟨-, ids, hids, hall⟩ := h
  cases hreach with
  | own hid =>
    refine .own ?_
    rw [ruleIds_rules hids]
    exact (hall id hid).2
  | through hx hcall =>
    rw [dependencies_eq, chained_of_not_isChain (hall _ hx).1] at hcall
    cases hcall

/-- A call that has become another leads to a routine from which as much is reached. -/
lemma Lookup.Becomes.reaches (hl : l.Becomes b b' l') (hi : l.routine? = some i) (hreach : b.Reaches i id)
    (hsame : b'.Reaches i id) : ∃ k, l'.routine? = some k ∧ b'.Reaches k id := by
  rcases hl with rfl | ⟨r, k, rfl, rfl, hrules⟩
  · exact ⟨i, hi, hsame⟩
  · cases hi
    exact ⟨k, rfl, hrules.reaches hreach⟩

namespace Merging
variable (hb : b.Mergeable) (h : Merging b b')
include hb h

lemma reaches (hreach : b.Reaches i id) (hi : i ∈ b.order) : b'.Reaches i id := by
  induction hreach with
  | own hid => exact .own ((h.mem_ruleIds hb hi).1 _ hid)
  | @through i j x id hx hcall hreach ih =>
    have hx' := (h.mem_ruleIds hb hi).1 x hx
    rw [dependencies_eq] at hcall
    obtain ⟨l, hl, hlj⟩ := mem_map.1 hcall
    obtain ⟨j', hj', heq⟩ := hb.calls.chains x (mem_flatMap.2 ⟨i, hi, hx⟩) l hl
    cases hlj.symm.trans heq
    obtain ⟨f, hf, hchained⟩ := h.chained x
    obtain ⟨k, hk, hreach'⟩ := (hf l hl).reaches hlj hreach (ih hj')
    refine .through hx' ?_ hreach'
    rw [dependencies_eq, hchained]
    exact mem_map.2 ⟨f l, mem_entries_mapEach.2 ⟨l, hl, rfl⟩, hk⟩

lemma stillLeads : b.StillLeads b' := by
  refine ⟨?_, fun u hu => ?_⟩
  · rw [h.features]
    refine List.forall₂_same.2 fun f hf => ⟨rfl, ?_⟩
    rintro id ⟨l, hl, i, hi, hreach⟩
    obtain ⟨i', hi', heq⟩ := hb.calls.features f hf l hl
    cases hi.symm.trans heq
    exact ⟨l, hl, i, hi, reaches hb h hreach hi'⟩
  · obtain ⟨f, hf, hchained⟩ := h.chained u
    rw [hchained]
    refine List.forall₂_map_right_iff.2 (List.forall₂_same.2 fun slot hslot => ?_)
    rintro id ⟨l, hl, i, hi, hreach⟩
    cases slot with
    | none => cases hl
    | some ls =>
      have hentry : l ∈ (b.rule u).chained.entries := mem_entries.2 ⟨ls, hslot, hl⟩
      obtain ⟨i', hi', heq⟩ := hb.calls.chains u hu l hentry
      cases hi.symm.trans heq
      obtain ⟨k, hk, hreach'⟩ := (hf l hentry).reaches hi hreach (reaches hb h hreach hi')
      exact ⟨f l, mem_map_of_mem hl, k, hk, hreach'⟩

/-- Chains in force stay in force, and no others come. -/
lemma mem_allRules_iff (hu : (b.rule u).isChain) : u ∈ b'.allRules ↔ u ∈ b.allRules := by
  unfold allRules
  rw [mem_flatMap, mem_flatMap]
  constructor
  · rintro ⟨i, hi, hui⟩
    rcases h.order i hi with hib | rfl
    · refine ⟨i, hib, ((h.mem_ruleIds hb hib).2 u hui).resolve_right ?_⟩
      rw [hu]
      exact Bool.noConfusion
    · rw [ruleIds_rules h.dead] at hui
      cases hui
  · rintro ⟨i, hi, hui⟩
    rcases h.gone i hi with hin | ⟨k, -, -, ids, -, hall⟩
    · exact ⟨i, hin, (h.mem_ruleIds hb hi).1 u hui⟩
    · rw [(hall u hui).1] at hu
      cases hu

lemma callsInForce_iff : b'.CallsInForce ↔ ∀ i ∈ b.order, b.CalledByReference i → i ∈ b'.order := by
  constructor
  · rintro hcalls i - (⟨f, hf, l, hl, hi⟩ | ⟨u, hu, name, hl⟩)
    · obtain ⟨i', hi', heq⟩ := hcalls.features f (h.features ▸ hf) l hl
      cases hi.symm.trans heq
      exact hi'
    · -- A call through a reference stays as it is.
      obtain ⟨f, hf, hchained⟩ := h.chained u
      have hl' : .ref ⟨name, some i⟩ ∈ (b'.rule u).chained.entries := by
        rw [hchained]
        refine mem_entries_mapEach.2 ⟨_, hl, ?_⟩
        rcases hf _ hl with hsame | ⟨r, k, hbare, -⟩
        · exact hsame
        · cases hbare
      have hin := (mem_allRules_iff hb h (isChain_of_mem_entries hl)).2 hu
      obtain ⟨i', hi', heq⟩ := hcalls.chains u hin _ hl'
      cases heq
      exact hi'
  · intro hstay
    refine ⟨fun f hf l hl => ?_, fun u hu l hl => ?_⟩
    · rw [h.features] at hf
      obtain ⟨i, hi, heq⟩ := hb.calls.features f hf l hl
      exact ⟨i, hstay i hi (.inl ⟨f, hf, l, hl, heq⟩), heq⟩
    · have hchain : (b.rule u).isChain = true := h.isChain u ▸ isChain_of_mem_entries hl
      have hub := (mem_allRules_iff hb h hchain).1 hu
      cases l with
      | bare j => exact ⟨j, (h.bare u hub j hl).1, rfl⟩
      | ref r =>
        obtain ⟨f, hf, hchained⟩ := h.chained u
        rw [hchained] at hl
        obtain ⟨l, hl, hfl⟩ := mem_entries_mapEach.1 hl
        have hsame : l = .ref r := by
          rcases hfl ▸ hf l hl with hsame | ⟨-, k, -, hk, -⟩
          · exact hsame.symm
          · cases hk
        subst hsame
        obtain ⟨i, hi, heq⟩ := hb.calls.chains u hub _ hl
        obtain ⟨name, routine⟩ := r
        cases heq
        exact ⟨i, hstay i hi (.inr ⟨u, hub, name, hl⟩), rfl⟩

end Merging

/-- **Merging routines leaves no call without its routine** exactly if it takes no routine out of
force that a feature calls, or a chain through a reference. Every rule in force stays in force,
and features and chains lead to what they led to. -/
theorem mergeNonOverlapping_calls_iff {b b' : Book} (hb : b.Mergeable)
    {e : Except Fault Unit} (hrun : mergeNonOverlapping.on b = (e, b')) :
    (b'.CallsInForce ∧ b.StillLeads b' ↔ ∀ i ∈ b.order, b.CalledByReference i → i ∈ b'.order) ∧
      b.StillLeads b' ∧ (∀ id ∈ b.allRules, id ∈ b'.allRules) := by
  have h := mergeNonOverlapping_merging hb hrun
  have leads := h.stillLeads hb
  refine ⟨(and_iff_left leads).trans (h.callsInForce_iff hb), leads, fun id hid => ?_⟩
  obtain ⟨i, hi, hid⟩ := List.mem_flatMap.1 hid
  rcases h.gone i hi with hin | ⟨k, hk, -, ids, hids, hall⟩
  · exact List.mem_flatMap.2 ⟨i, hin, (h.mem_ruleIds hb hi).1 id hid⟩
  · refine List.mem_flatMap.2 ⟨k, hk, ?_⟩
    rw [Book.ruleIds_rules hids]
    exact (hall id hid).2

section Sample

/-- Two routines with nothing in common, a chain that makes the given call of the second, one
that refers to the first, and an extension that holds the chains. -/
def apartBook (second : Lookup) : Book :=
  { routines := #[{ name := some "a", content := .rules [0] }, { name := some "c", content := .rules [1] },
      { name := some "chains", content := .rules [2, 3] }, { name := some "outer", content := .extension [2] }]
    rules := #[Rule.ofBody (.substitution { input := some [["a"]], replacement := some [["b"]] }),
      Rule.ofBody (.substitution { input := some [["c"]], replacement := some [["d"]] }),
      Rule.ofBody (.chaining { input := some [["x"]], calls := [some [second]] }),
      Rule.ofBody (.chaining { input := some [["y"]], calls := [some [.ref ⟨some (some "a"), some 0⟩]] })]
    order := [0, 1, 2, 3] }

lemma Book.Mergeable.of_checks (h : b.OneExtension e)
    (hplain : ∀ i ∈ b.order, hasChains b i = false → (b.routine i).content = .rules (b.ruleIds i))
    (hcalls : b.CallsInForce) (hmarked : b.usageMarked = false) : b.Mergeable where
  coherent := coherent_of_ungrouped h.2.2.2
  layered := ⟨_, h.layered⟩
  order := h.2.1
  plain i hi hchains := ⟨_, hplain i hi hchains⟩
  calls := hcalls
  noted hmarks := by
    rw [hmarked] at hmarks
    cases hmarks

lemma on_eq_of_isOk {x : Act Unit} (h : (x.on b).1.isOk) : x.on b = (.ok (), (x.on b).2) := by
  obtain ⟨_, ha⟩ := exists_of_isOk h
  exact Prod.ext ha rfl

theorem mergeNonOverlapping_calls_bare : (apartBook (.bare 1)).Mergeable ∧
    ∃ b', mergeNonOverlapping.on (apartBook (.bare 1)) = (.ok (), b') ∧ b'.order = [0, 2, 3] ∧
      b'.CallsInForce ∧ (apartBook (.bare 1)).StillLeads b' := by
  have mergeable : (apartBook (.bare 1)).Mergeable :=
    .of_checks (by decide : OneExtension _ 3) (by decide) ⟨by decide, by decide⟩ rfl
  have hrun := on_eq_of_isOk (x := mergeNonOverlapping) (b := apartBook (.bare 1)) (by decide +kernel)
  have horder : (mergeNonOverlapping.on (apartBook (.bare 1))).2.order = [0, 2, 3] := by decide +kernel
  refine ⟨mergeable, _, hrun, horder, (mergeNonOverlapping_calls_iff mergeable hrun).1.2 fun i hi href => ?_⟩
  have calls : ∀ u ∈ (apartBook (.bare 1)).allRules, ∀ l ∈ ((apartBook (.bare 1)).rule u).chained.entries,
      l = .bare 1 ∨ l.routine? = some 0 := by decide
  rcases href with ⟨f, hf, -⟩ | ⟨u, hu, name, hl⟩
  · cases hf
  · rcases calls u hu _ hl with hbare | hfirst
    · cases hbare
    · cases hfirst
      rw [horder]
      decide

/-- A call through a reference is left without its routine. -/
theorem mergeNonOverlapping_calls_reference : (apartBook (.ref ⟨some (some "c"), some 1⟩)).Mergeable ∧
    ∃ b', mergeNonOverlapping.on (apartBook (.ref ⟨some (some "c"), some 1⟩)) = (.ok (), b') ∧
      b'.order = [0, 2, 3] ∧ ¬b'.CallsInForce := by
  have mergeable : (apartBook (.ref ⟨some (some "c"), some 1⟩)).Mergeable :=
    .of_checks (by decide : OneExtension _ 3) (by decide) ⟨by decide, by decide⟩ rfl
  have hrun := on_eq_of_isOk (x := mergeNonOverlapping) (b := apartBook (.ref ⟨some (some "c"), some 1⟩))
    (by decide +kernel)
  have horder : (mergeNonOverlapping.on (apartBook (.ref ⟨some (some "c"), some 1⟩))).2.order = [0, 2, 3] := by
    decide +kernel
  refine ⟨mergeable, _, hrun, horder, fun hcalls => ?_⟩
  obtain ⟨i, hi, heq⟩ := hcalls.chains 2 (by decide +kernel) (.ref ⟨some (some "c"), some 1⟩) (by decide +kernel)
  cases heq
  rw [horder] at hi
  simp at hi

end Sample

end GlyphRules
