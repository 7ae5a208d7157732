import GlyphRules.Layout.Rules
import GlyphRules.Proofs.Dict
import GlyphRules.Proofs.Book.Resolve

/-! What the features of a table become.

A table enables a lookup for a language system through a feature. In a book a feature calls
routines, and a routine has its languages, whatever feature calls it. So what is read is selected if
the lookup is enabled through the feature somewhere and for the language system through some feature
(`readTable_selects`). -/
namespace GlyphRules

open List Book Dict

variable {i : RoutineId} {s : Setting} {l : LookupTable} {n : Nat} {b b' : Book} {count count' n' : Nat}
variable {system p : LanguageSystem} {names : Option (List (String × String))} {α β : Type} {t : LayoutTable}

namespace Book

def CalledBy (b : Book) (tag : String) (i : RoutineId) : Prop :=
  ∃ l ∈ (Dict.get? b.features tag).getD [], l.routine? = some i

def Selects (b : Book) (system : LanguageSystem) (tag : String) (i : RoutineId) : Prop :=
  b.CalledBy tag i ∧ ∃ ls, (b.routine i).languages = .pairs ls ∧ system ∈ ls

end Book

namespace Layout

open Step LayoutTable

/-! ### Routines for lookups -/

lemma routine_reserve (b) (count) (j) : (Act.reserve b count).routine j = b.routine j := by
  simp only [Act.reserve, Book.routine, Array.getD_eq_getD_getElem?]
  grind

/-! ### What leaves uses alone -/

/-- No use of a routine changes: neither what features call nor the languages of routines. -/
structure Unused (b b' : Book) : Prop where
  features : b'.features = b.features
  languages : ∀ i, (b'.routine i).languages = (b.routine i).languages

instance : Std.Refl Unused := ⟨fun _ => ⟨rfl, fun _ => rfl⟩⟩

instance : Trans Unused Unused Unused :=
  ⟨fun h k => ⟨k.features.trans h.features, fun i => (k.languages i).trans (h.languages i)⟩⟩

namespace Unused

lemma alterRoutine (b) (i) {f} (hf : ∀ r, (f r).languages = r.languages) :
    Unused b (b.alterRoutine i f) := ⟨rfl, routine_alterRoutine_eq b i hf⟩

lemma setCalls (b) (id) (calls) : Unused b (b.setCalls id calls) := by
  unfold Book.setCalls
  split <;> exact ⟨rfl, fun _ => rfl⟩

lemma referTo (b) (i) : Unused b (b.referTo i).2 := by
  have enforced : Unused b (b.enforce i) := by
    unfold enforce
    split <;> exact ⟨rfl, fun _ => rfl⟩
  exact Trans.trans enforced (alterRoutine _ i fun _ => rfl)

/-- A routine behind those that were there may be replaced by one without languages. -/
lemma fill (h : Unused b c) {first : RoutineId} (hfirst : b.routines.size ≤ first)
    {x} (hx : x.1.1.languages = .pairs []) : Unused b (Act.fill first c x) := by
  refine ⟨h.features, fun j => ?_⟩
  have old := h.languages j
  have new (hj : j = first + x.2) := routine_of_size_le (b := b) (hj ▸ Nat.le_add_right_of_le hfirst)
  simp only [Act.fill, Book.routine, Array.getD_eq_getD_getElem?] at *
  grind

end Unused

/-! ### Resolving -/

lemma keeps_resolveLookup (l) : Keeps Unused (Act.resolveLookup l) := by
  unfold Act.resolveLookup
  split
  · refine .bind .get fun b => .bind (fun c => ?_) fun r => ?_
    · rw [on_ofExcept]
      exact Std.Refl.refl c
    · split
      · refine .bind .get fun b => ?_
        split
        · exact .pure _
        · exact .throw _
      · exact .throw _
  · intro b
    exact .referTo b _

lemma keeps_resolveAt (id) (ix) : Keeps Unused (Act.resolveAt id ix) := by
  refine .bind .get fun b => .bind ?_ fun slot => .modify fun b => .setCalls b id _
  unfold Act.resolveSlot
  split
  · exact .pure _
  · exact .pure _
  · exact .bind (.mapM _ fun l _ => keeps_resolveLookup l) fun _ => .pure _

lemma keeps_resolveFrom (fuel n) : Keeps Unused (Act.resolveFrom fuel n) := by
  induction fuel generalizing n with
  | zero => exact .pure ()
  | succ fuel ih =>
    refine .bind .get fun b => ?_
    split
    · exact .pure ()
    · refine .bind (.forM _ fun id _ => .bind .get fun b => ?_) fun _ => ih (n + 1)
      split
      · exact .forM _ fun ix _ => keeps_resolveAt id ix
      · exact .pure ()

/-! ### Lookups -/

lemma flagged_languages (h : flagged s l name = .ok r) :
    r.languages = .pairs [] := by
  obtain ⟨marks, -, h⟩ := bind_eq_ok.1 h
  obtain ⟨filter, -, h⟩ := bind_eq_ok.1 h
  cases h
  rfl

lemma withOrigin_languages (h : withOrigin s n r = .ok r') : r'.languages = r.languages := by
  unfold withOrigin at h
  split at h
  · cases h
    rfl
  · split at h
    · cases h
    · cases h
      rfl

lemma reading_bind_eq_ok {x : Reading α} {f} {b : β} :
    (x >>= f).run n = .ok (b, n') ↔ ∃ a m, x.run n = .ok (a, m) ∧ (f a).run m = .ok (b, n') := by
  rw [StateT.run_bind, bind_eq_ok]
  exact Prod.exists

lemma reading_lift_eq_ok {x : Except Fault α} {a} :
    (liftM x : Reading α).run n = .ok (a, n') ↔ x = .ok a ∧ n' = n := by
  cases x with
  | error e => simp
  | ok b => simp [eq_comm]

lemma plainLookup_eq_ok {x} :
    (plainLookup s n l label).run count = .ok (x, count') ↔
      ∃ name m, (routineName s label).run count = .ok (name, m) ∧ flagged s l name = .ok x.1 ∧
        (plainRules s n l label).run m = .ok (x.2, count') := by
  unfold plainLookup
  simp only [reading_bind_eq_ok, reading_lift_eq_ok]
  constructor
  · rintro ⟨name, m, hname, routine, _, ⟨hflagged, rfl⟩, rules, _, hrules, h⟩
    cases h
    exact ⟨name, _, hname, hflagged, hrules⟩
  · rintro ⟨name, m, hname, hflagged, hrules⟩
    exact ⟨name, m, hname, x.1, m, ⟨hflagged, rfl⟩, x.2, count', hrules, rfl⟩

lemma lookupRoutine_languages
    (h : (lookupRoutine s n l).run count = .ok (x, count')) : x.1.languages = .pairs [] := by
  unfold lookupRoutine at h
  split at h
  · cases h
  · obtain ⟨rules, m, -, h⟩ := reading_bind_eq_ok.1 h
    cases h
    rfl
  · obtain ⟨name, m, -, hflagged, -⟩ := plainLookup_eq_ok.1 h
    exact flagged_languages hflagged

lemma reading_mapM_forall₂ {f : α → Reading β} {l} {bs}
    (h : (l.mapM f).run n = .ok (bs, n')) : Forall₂ (fun a b => ∃ m m', (f a).run m = .ok (b, m')) l bs := by
  induction l generalizing n bs with
  | nil =>
    cases h
    exact .nil
  | cons a l ih =>
    rw [mapM_cons] at h
    obtain ⟨b, m, hb, h⟩ := reading_bind_eq_ok.1 h
    obtain ⟨rest, m', hrest, h⟩ := reading_bind_eq_ok.1 h
    cases h
    exact .cons ⟨n, m, hb⟩ (ih hrest)

/-- Filling in lookups changes only routines behind those that were there, and these have no languages. -/
lemma foldl_fill_unused {lookups} {read}
    (hread : (readLookups s lookups).run count = .ok (read, count')) (hfirst : b.routines.size ≤ s.first)
    {c} (hc : Unused b c) : Unused b (read.zipIdx.foldl (Act.fill s.first) c) := by
  have silent : ∀ x ∈ read, x.1.languages = .pairs [] := by
    intro x hx
    obtain ⟨⟨l, i⟩, -, m, m', hrun⟩ := forall₂_mem_right (reading_mapM_forall₂ hread) hx
    obtain ⟨y, m₁, hy, hrun⟩ := reading_bind_eq_ok.1 hrun
    obtain ⟨r, m₂, hr, hrun⟩ := reading_bind_eq_ok.1 hrun
    cases hrun
    exact (withOrigin_languages (reading_lift_eq_ok.1 hr).1).trans (lookupRoutine_languages hy)
  refine foldlRecOn _ (Act.fill s.first) hc fun c hc x hx => hc.fill hfirst (silent x.1 ?_)
  exact mem_of_getElem? (mem_zipIdx_iff_getElem?.1 hx)

/-! ### Uses -/

structure Use where
  system : LanguageSystem
  tag : String
  lookup : Nat
deriving DecidableEq

def extended (languages : Languages) (more : List LanguageSystem) : Languages :=
  match languages with
  | .pairs l => .pairs (l ++ more)
  | .text t => .text t

lemma extended_nil (languages) : extended languages [] = languages := by
  cases languages with
  | pairs l => exact congrArg _ (append_nil l)
  | text t => rfl

def systemsOf (first : RoutineId) (us : List Use) (i : RoutineId) : List LanguageSystem :=
  (us.filter (first + ·.lookup == i)).map (·.system)

lemma systemsOf_singleton (first) (u) (i) :
    systemsOf first [u] i = if first + u.lookup = i then [u.system] else [] := by
  unfold systemsOf
  by_cases hi : first + u.lookup = i <;> simp [hi]

structure Used (first : RoutineId) (b b' : Book) (us : List Use) : Prop where
  size : b'.routines.size = b.routines.size
  languages : ∀ i, (b'.routine i).languages = extended (b.routine i).languages (systemsOf first us i)
  calls : ∀ tag i, b'.CalledBy tag i ↔ b.CalledBy tag i ∨ ∃ u ∈ us, u.tag = tag ∧ first + u.lookup = i

namespace Used
variable {first : RoutineId} {b'' : Book} {us : List Use}

lemma refl (first) (b) : Used first b b [] := by
  refine ⟨rfl, fun i => (extended_nil _).symm, fun tag i => ?_⟩
  simp

lemma trans (h : Used first b b' us) (h' : Used first b' b'' us') :
    Used first b b'' (us ++ us') := by
  refine ⟨h'.size.trans h.size, fun i => ?_, fun tag i => ?_⟩
  · rw [h'.languages, h.languages, systemsOf, systemsOf, systemsOf, filter_append, map_append]
    cases (b.routine i).languages with
    | pairs _ => exact congrArg _ (append_assoc ..)
    | text t => rfl
  · rw [h'.calls, h.calls, or_assoc]
    simp only [mem_append, or_and_right, exists_or]

end Used

lemma calledBy_addFeature (b : Book) (tag) (r) (tag') (i) :
    (b.addFeature tag [.ref r]).CalledBy tag' i ↔ b.CalledBy tag' i ∨ tag = tag' ∧ r.routine = some i := by
  have features : (b.addFeature tag [.ref r]).features =
      alter (alter b.features tag [] id) tag [] (· ++ [.ref r]) := rfl
  unfold CalledBy
  rw [features, get?_alter, get?_alter, get?_alter]
  by_cases htag : tag' = tag
  · simp [htag, Lookup.routine?]
  · simp [htag, Ne.symm htag]

lemma languages_alterRoutine (hi : i < b.routines.size) {f} {more}
    (hf : ∀ r, (f r).languages = extended r.languages more) (j) :
    ((b.alterRoutine i f).routine j).languages = extended (b.routine j).languages (if i = j then more else []) := by
  split
  · next hij =>
    subst hij
    rw [routine_alterRoutine_self hi, hf]
  · next hij => rw [routine_alterRoutine_ne _ (Ne.symm hij), extended_nil]

lemma useLookup_on (hsize : s.first + s.count ≤ b.routines.size)
    (h : (Act.useLookup s tag system n).on b = (.ok (), b')) : Used s.first b b' [⟨system, tag, n⟩] := by
  unfold Act.useLookup at h
  dsimp only at h
  split at h
  · cases h
  · next hn =>
    rw [on_bind_ok (on_modify _ _), on_get_bind] at h
    have hlt : s.first + n < b.routines.size := Nat.lt_of_lt_of_le (Nat.add_lt_add_left (Nat.lt_of_not_le hn) _) hsize
    split at h
    · next hnew =>
      cases h
      refine ⟨size_alterRoutine .., fun i => ?_, fun tag' i => ?_⟩
      · rw [systemsOf_singleton]
        exact languages_alterRoutine hlt (fun r => rfl) i
      · refine (calledBy_addFeature _ tag _ tag' i).trans (or_congr_right ?_)
        simp [Reference.make]
    · next hknown =>
      cases h
      refine ⟨size_alterRoutine .., fun i => ?_, fun tag' i => ?_⟩
      · rw [systemsOf_singleton]
        exact languages_alterRoutine hlt (fun r => rfl) i
      · have known : b.CalledBy tag (s.first + n) := by
          rw [Bool.not_eq_true', Bool.not_eq_false] at hknown
          refine (any_eq_true.1 hknown).imp fun l hl => hl.imp_right fun heq => ?_
          cases l with
          | ref r => exact eq_of_beq heq
          | bare j => exact congrArg some (eq_of_beq heq)
        constructor
        · exact .inl
        · rintro (hi | ⟨u, hu, rfl, rfl⟩)
          · exact hi
          · rwa [mem_singleton.1 hu]

def usesOf (features : List (String × List Nat)) (system : LanguageSystem) (indices : List Nat) : List Use :=
  indices.flatMap fun n => (features[n]?.toList).flatMap fun x => x.2.map (Use.mk system x.1)

lemma forM_used {f : α → Act Unit} {uses} {l : List α}
    (hf : ∀ {a c c'}, s.first + s.count ≤ c.routines.size → (f a).on c = (.ok (), c') → Used s.first c c' (uses a))
    (hsize : s.first + s.count ≤ b.routines.size) (h : (l.forM f).on b = (.ok (), b')) :
    Used s.first b b' (l.flatMap uses) := by
  refine on_forM_invariant (fun done c => Used s.first b c (done.flatMap uses)) (fun _ hc ha => ?_) (.refl _ b) h
  rw [flatMap_append, flatMap_singleton]
  exact hc.trans (hf (hc.size ▸ hsize) ha)

lemma useFeatures_on {features} {indices}
    (hsize : s.first + s.count ≤ b.routines.size)
    (h : (Act.useFeatures s features system indices).on b = (.ok (), b')) :
    Used s.first b b' (usesOf features system indices) := by
  refine forM_used (fun {n c c'} hc hn => ?_) hsize h
  split at hn
  · cases hn
  · next tag lookups hfeature =>
    have used : Used s.first c c' (lookups.flatMap fun k => [⟨system, tag, k⟩]) := forM_used useLookup_on hc hn
    rw [← map_eq_flatMap] at used
    rwa [hfeature, Option.toList_some, flatMap_singleton]

namespace LayoutTable

def Enables (t : LayoutTable) (system : LanguageSystem) (tag : String) (lookup : Nat) : Prop :=
  ∃ indices, (system, indices) ∈ t.systems ∧
    ∃ n ∈ indices, ∃ lookups, t.features[n]? = some (tag, lookups) ∧ lookup ∈ lookups

def uses (t : LayoutTable) : List Use := t.systems.flatMap fun x => usesOf t.features x.1 x.2

lemma mem_uses : u ∈ t.uses ↔ t.Enables u.system u.tag u.lookup := by
  unfold uses usesOf Enables
  simp only [mem_flatMap, Option.mem_toList, mem_map]
  constructor
  · rintro ⟨⟨system, indices⟩, hsystem, n, hn, ⟨tag, lookups⟩, hfeature, k, hk, rfl⟩
    exact ⟨indices, hsystem, n, hn, lookups, hfeature, hk⟩
  · rintro ⟨indices, hsystem, n, hn, lookups, hfeature, hk⟩
    exact ⟨(u.system, indices), hsystem, n, hn, (u.tag, lookups), hfeature, u.lookup, hk, rfl⟩

instance (t : LayoutTable) (system : LanguageSystem) (tag : String) (lookup : Nat) :
    Decidable (t.Enables system tag lookup) :=
  decidable_of_iff (⟨system, tag, lookup⟩ ∈ t.uses) mem_uses

end LayoutTable

/-- Reading a table: its uses are noted between steps that leave uses alone. -/
lemma readTable_used {tables}
    (h : (Act.readTable kind tables names t).on b = (.ok (), b')) :
    ∃ b₁ b₂, Unused b b₁ ∧ Used b.routines.size b₁ b₂ t.uses ∧ Unused b₂ b' := by
  cases hscripts : t.scripts with
  | none =>
    rw [Act.readTable, hscripts] at h
    cases h
    have none : t.uses = [] := by
      unfold LayoutTable.uses systems
      rw [hscripts]
      rfl
    rw [none]
    exact ⟨b, b, Std.Refl.refl b, .refl _ b, Std.Refl.refl b⟩
  | some scripts =>
    rw [Act.readTable, if_pos (by rw [hscripts]; rfl), on_get_bind, on_bind_ok (on_modify _ _)] at h
    obtain ⟨_, b₁, hfilled, hrest⟩ := on_bind_eq_ok h
    obtain ⟨_, b₂, hused, hresolved⟩ := on_bind_eq_ok hrest
    obtain ⟨⟨read, count⟩, hread, hmodified⟩ := on_ofExcept_bind hfilled
    cases hmodified
    have reserved : Unused b (Act.reserve b (t.lookups.getD []).length) := ⟨rfl, fun i => by rw [routine_reserve]⟩
    refine ⟨_, b₂, foldl_fill_unused hread (Nat.le_refl _) reserved, forM_used useFeatures_on ?_ hused,
      (Keeps.bind .get fun _ => keeps_resolveFrom _ _).of_on hresolved⟩
    refine foldlRecOn _ _ (motive := fun c : Book => _ ≤ c.routines.size) ?_ fun _ hc _ _ => hc.trans_eq
      Array.size_setIfInBounds.symm
    rw [Act.reserve, Array.size_append, Array.size_replicate]

/-! ### Selected routines -/

lemma mem_systemsOf :
    p ∈ systemsOf first us i ↔ ∃ u ∈ us, first + u.lookup = i ∧ u.system = p := by
  unfold systemsOf
  simp only [mem_map, mem_filter, beq_iff_eq, and_assoc]

section Reading
variable {kind : TableKind} {tables : FontTables}

/-- What is selected after a table is read: what was selected before, and the routine of each lookup that is
enabled through the feature somewhere and for the language system through some feature. -/
lemma readTable_selects (hb : ∀ tag i, b.CalledBy tag i → i < b.routines.size)
    (h : (Act.readTable kind tables names t).on b = (.ok (), b')) (p) (tag) (i) :
    b'.Selects p tag i ↔ b.Selects p tag i ∨ ∃ k, b.routines.size + k = i ∧
      (∃ p', t.Enables p' tag k) ∧ ∃ tag', t.Enables p tag' k := by
  obtain ⟨b₁, b₂, before, used, behind⟩ := readTable_used h
  have calls : b'.CalledBy tag i ↔ b.CalledBy tag i ∨ ∃ u ∈ t.uses, u.tag = tag ∧ b.routines.size + u.lookup = i := by
    unfold CalledBy at *
    rw [behind.features, ← before.features]
    exact used.calls tag i
  have languages : (b'.routine i).languages = extended (b.routine i).languages (systemsOf b.routines.size t.uses i) := by
    rw [behind.languages, used.languages, before.languages]
  rw [Selects, calls, languages]
  rcases Nat.lt_or_ge i b.routines.size with hi | hi
  · -- No lookup of the table has a routine that was there.
    have other (u : Use) : b.routines.size + u.lookup ≠ i := by omega
    have none : systemsOf b.routines.size t.uses i = [] := by
      rw [eq_nil_iff_forall_not_mem]
      intro q hq
      obtain ⟨u, -, hu, -⟩ := mem_systemsOf.1 hq
      exact other u hu
    rw [none, extended_nil]
    constructor
    · rintro ⟨hcalled | ⟨u, -, -, hu⟩, hp⟩
      · exact .inl ⟨hcalled, hp⟩
      · exact absurd hu (other u)
    · rintro (⟨hcalled, hp⟩ | ⟨k, hk, -⟩)
      · exact ⟨.inl hcalled, hp⟩
      · exact absurd hk (other ⟨p, tag, k⟩)
  · obtain ⟨k, rfl⟩ := Nat.exists_eq_add_of_le hi
    have own : ¬b.CalledBy tag (b.routines.size + k) := fun hcalled => Nat.not_lt.2 hi (hb tag _ hcalled)
    rw [routine_of_size_le hi]
    constructor
    · rintro ⟨hcalled | ⟨u, hu, rfl, hk⟩, ls, hls, hp⟩
      · exact absurd hcalled own
      · cases hls
        obtain ⟨v, hv, hk', rfl⟩ := mem_systemsOf.1 hp
        obtain rfl := Nat.add_left_cancel hk
        have same : v.lookup = u.lookup := Nat.add_left_cancel hk'
        exact .inr ⟨u.lookup, rfl, ⟨u.system, mem_uses.1 hu⟩, v.tag, same ▸ mem_uses.1 hv⟩
    · rintro (⟨hcalled, -⟩ | ⟨n, hn, ⟨q, hq⟩, tag', htag'⟩)
      · exact absurd hcalled own
      · obtain rfl := Nat.add_left_cancel hn
        refine ⟨.inr ⟨⟨q, tag, n⟩, mem_uses.2 hq, rfl, rfl⟩, _, rfl, ?_⟩
        exact mem_systemsOf.2 ⟨⟨p, tag', n⟩, mem_uses.2 htag', rfl, rfl⟩

/-- **What a table selects.** The routines that a feature selects for a language system are those that it
selected before and those of the lookups that the system enables through the feature, exactly if every lookup
that the feature enables somewhere, and that the system enables through some feature, is enabled by the two
together. -/
theorem readTable_selects_enabled_iff (hb : ∀ tag i, b.CalledBy tag i → i < b.routines.size)
    (h : (Act.readTable kind tables names t).on b = (.ok (), b')) :
    (∀ p tag i, b'.Selects p tag i ↔ b.Selects p tag i ∨ ∃ k, b.routines.size + k = i ∧ t.Enables p tag k) ↔
      ∀ p tag k, (∃ p', t.Enables p' tag k) → (∃ tag', t.Enables p tag' k) → t.Enables p tag k := by
  have selects := readTable_selects hb h
  constructor
  · intro exact_ p tag k hsomewhere hsomehow
    rcases (exact_ p tag (b.routines.size + k)).1 ((selects p tag _).2 (.inr ⟨k, rfl, hsomewhere, hsomehow⟩)) with
      hold | ⟨n, hn, henables⟩
    · exact absurd (hb tag _ hold.1) (Nat.not_lt.2 (Nat.le_add_right ..))
    · exact Nat.add_left_cancel hn ▸ henables
  · intro closed p tag i
    rw [selects]
    refine or_congr_right (exists_congr fun k => and_congr_right fun _ => ?_)
    exact ⟨fun ⟨hsomewhere, hsomehow⟩ => closed p tag k hsomewhere hsomehow,
      fun henables => ⟨⟨p, henables⟩, tag, henables⟩⟩

end Reading

section Sample

/-- One glyph for another. -/
def swap (a b : String) : LookupTable := { type := 1, subtables := [.single [(a, b)]] }

/-- A feature of two scripts, and one that is for a language alone. -/
def plainTable : LayoutTable :=
  { scripts := some [{ tag := "grek", default := some [0] },
      { tag := "latn", default := some [0], languages := [("DEU ", [0, 1])] }]
    features := [("ccmp", [0]), ("locl", [1])]
    lookups := some [swap "a" "b", swap "c" "d"] }

theorem readTable_selects_plain : ∃ b, (Act.readTable .substitution {} (some []) plainTable).on {} = (.ok (), b) ∧
    ∀ p tag i, b.Selects p tag i ↔ ({} : Book).Selects p tag i ∨ ∃ k, 0 + k = i ∧ plainTable.Enables p tag k := by
  have called : ∀ tag i, ({} : Book).CalledBy tag i → i < ({} : Book).routines.size := by
    rintro tag i ⟨l, hl, -⟩
    cases hl
  have closed : ∀ u ∈ plainTable.uses, ∀ v ∈ plainTable.uses, v.lookup = u.lookup →
      (⟨v.system, u.tag, v.lookup⟩) ∈ plainTable.uses := by
    decide
  obtain ⟨b, hrun⟩ : ∃ b, (Act.readTable .substitution {} (some []) plainTable).on {} = (.ok (), b) := ⟨_, by rfl⟩
  refine ⟨b, hrun, (readTable_selects_enabled_iff called hrun).2 ?_⟩
  rintro p tag k ⟨p', hsomewhere⟩ ⟨tag', hsomehow⟩
  exact mem_uses.1 (closed ⟨p', tag, k⟩ (mem_uses.2 hsomewhere) ⟨p, tag', k⟩
    (mem_uses.2 hsomehow) rfl)

def mixedTable : LayoutTable :=
  { scripts := some [{ tag := "grek", default := some [1] }, { tag := "latn", default := some [0] }]
    features := [("ccmp", [0]), ("ss01", [0])]
    lookups := some [swap "a" "b"] }

/-- **A lookup that two features share is selected through both** for every language system of either. -/
theorem readTable_selects_mixed : ∃ b, (Act.readTable .substitution {} (some []) mixedTable).on {} = (.ok (), b) ∧
    b.Selects ("grek", "dflt") "ccmp" 0 ∧ ¬mixedTable.Enables ("grek", "dflt") "ccmp" 0 :=
  ⟨_, by rfl, ⟨⟨_, List.mem_singleton.2 rfl, by rfl⟩, _, by rfl, by decide⟩, by decide⟩

end Sample

end Layout
end GlyphRules
