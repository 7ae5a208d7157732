import GlyphRules.Proofs.Text
import GlyphRules.Proofs.Book.Arrangement
import GlyphRules.Proofs.Build.Builders

/-! What a layout table says.

A table is read from the outside in: a script, a language system, its features, and their lookups
(`Table.enabled`). Under a key stands what the map of the features lists there: one feature, with
the places of the lookups of the routines called, in their order (`Encodes`). Features are kept once
and used from several places, scripts and languages are sorted; none of that can be seen from
outside (`Work.table_encodes`). -/
namespace GlyphRules

open Step List Text Act

variable {b : Book} {builders : List BuilderId} {w w' : Workshop} {lookups : List (Option Finished)}
variable {m m' : FeatureMap} {filed : List (FeatureKey × List (Nat × Lookup))} {start count id n : Nat}

/-! ### Keys of a feature map -/

namespace FeatureMap

def Distinct (m : FeatureMap) : Prop := (m.map (·.1)).Nodup

namespace Distinct

lemma nil : Distinct [] := nodup_nil

lemma put (h : Distinct m) (key) (call) : Distinct (m.put key call) := Dict.nodup_alter h key _ _

lemma putCovered (h : Distinct m) (pairs) (tag) (system)
    (call) : Distinct (m.putCovered pairs tag system call) := by
  rw [putCovered_eq]
  exact List.foldlRecOn _ _ h fun _ hm key _ => hm.put key call

lemma putCall (h : Distinct m) {pairs} {tag} {call}
    {s t} (hrun : (Act.putCall b pairs tag m call).on s = (.ok m', t)) : Distinct m' := by
  unfold Act.putCall at hrun
  split at hrun
  · cases hrun
  · cases hrun
  · obtain ⟨systems, u, -, hrun⟩ := on_bind_eq_ok hrun
    cases hrun
    exact List.foldlRecOn _ _ h fun _ hm system _ => hm.putCovered pairs tag system _

lemma mem_iff_get? (h : Distinct m) {key} {calls} :
    (key, calls) ∈ m ↔ m.get? key = some calls := Dict.mem_iff_get? h

end Distinct
end FeatureMap

lemma Act.arrangeByScripts_distinct {b b'} (h : Act.arrangeByScripts.on b = (.ok m, b')) :
    m.Distinct := by
  -- The map is made in the last step.
  repeat obtain ⟨_, _, -, h⟩ := on_bind_eq_ok h
  refine on_foldlM_invariant (fun _ m _ => FeatureMap.Distinct m) (fun _ hm hrun => ?_) .nil h
  exact on_foldlM_invariant (fun _ m _ => FeatureMap.Distinct m) (fun _ hm hrun => hm.putCall hrun) hm hrun

namespace Build

lemma callsOfStage_distinct (hm : m.Distinct)
    (h : callsOfStage b stage m = .ok m') : m'.Distinct := by
  obtain ⟨parts, hparts, h⟩ := bind_eq_ok.1 h
  cases h
  have keys : parts.map (·.1) = m.map (·.1) := by
    refine map_of_forall₂ ((mapM_iff_forall₂.1 hparts).imp fun x y hxy => ?_)
    obtain ⟨calls, -, hy⟩ := bind_eq_ok.1 hxy
    cases hy
    rfl
  exact Nodup.sublist (filter_sublist.map _) (keys ▸ hm)

/-! ### Reading a table -/

namespace ScriptEntry

def systems (e : ScriptEntry) (language : String) : List (List Nat) :=
  if language = "dflt" then e.default.toList else (e.languages.filter (·.1 == language)).map (·.2)

/-- All features that are used in a script. -/
def indices (e : ScriptEntry) : List Nat := (e.default.toList ++ e.languages.map (·.2)).flatten

end ScriptEntry

namespace Table

/-- The features of a table that are used for a key: those with its tag, in the language systems with its
script and language. -/
def enabled (t : Table) (key : FeatureKey) : List (String × List Nat) :=
  (t.scripts.filter (·.tag == key.script)).flatMap fun e =>
    (e.systems key.language).flatMap fun indices =>
      (indices.filterMap fun n => t.features[n]?).filter (·.1 == key.tag)

end Table

/-! ### Scripts and languages -/

/-- In a list made from distinct names, each is found once. -/
lemma filter_map_of_nodup {α : Type} {names : List String} (h : names.Nodup) (f)
    (tag : α → String) (htag : ∀ s, tag (f s) = s) (name) :
    (names.map f).filter (tag · == name) = if name ∈ names then [f name] else [] := by
  have inner : names.filter ((tag · == name) ∘ f) = names.filter (· == name) := by
    refine filter_congr fun s _ => ?_
    rw [Function.comp, htag]
  rw [filter_map, inner, filter_beq]
  split
  · next hmem => rw [count_eq_one_of_mem h hmem, replicate_one, map_singleton]
  · next hmem => rw [count_eq_zero_of_not_mem hmem, replicate_zero, map_nil]

def ofLanguage (uses : List (FeatureKey × Nat)) (language : String) : String × List Nat :=
  (language, (uses.filter (·.1.language == language)).map (·.2))

def languageEntries (uses : List (FeatureKey × Nat)) : List (String × List Nat) :=
  (Text.sort (Text.distinct (uses.map (·.1.language)))).map (ofLanguage uses)

def scriptEntry (uses : List (FeatureKey × Nat)) (script : String) : ScriptEntry :=
  let entries := languageEntries (uses.filter (·.1.script == script))
  { tag := script
    default := (entries.find? (·.1 == "dflt")).map (·.2)
    languages := entries.filter (·.1 != "dflt") }

lemma scriptEntries_eq (uses) : scriptEntries uses =
    (sort (distinct (uses.map (·.1.script)))).map (scriptEntry uses) := rfl

def usedBy (uses : List (FeatureKey × Nat)) (p : FeatureKey → Bool) : List (List Nat) :=
  if uses.any (p ·.1) then [(uses.filter (p ·.1)).map (·.2)] else []

lemma filter_languageEntries (uses) (language) :
    ((languageEntries uses).filter (·.1 == language)).map (·.2) = usedBy uses (·.language == language) := by
  unfold languageEntries usedBy
  rw [filter_map_of_nodup (nodup_sort_distinct _) (ofLanguage uses) (·.1) fun _ => rfl]
  simp only [mem_sort_distinct, mem_map, any_eq_true, beq_iff_eq]
  split <;> rfl

lemma systems_scriptEntry (uses) (script language) :
    (scriptEntry uses script).systems language =
      usedBy (uses.filter (·.1.script == script)) (·.language == language) := by
  rw [← filter_languageEntries]
  unfold ScriptEntry.systems scriptEntry
  split
  · next hdefault =>
    subst hdefault
    show ((List.find? _ _).map _).toList = _
    have found := filter_map_of_nodup (nodup_sort_distinct ((uses.filter (·.1.script == script)).map (·.1.language)))
      (ofLanguage (uses.filter (·.1.script == script))) (·.1) (fun _ => rfl) "dflt"
    rw [← List.head?_filter]
    rw [languageEntries, found]
    split <;> rfl
  · next hother =>
    rw [filter_filter]
    congr 1
    refine filter_congr fun e _ => ?_
    by_cases he : e.1 = language
    · simp [he, hother]
    · simp [he]

lemma enabled_scriptEntries {t : Table} {uses} (hscripts : t.scripts = scriptEntries uses)
    (htags : ∀ u ∈ uses, ∃ lookups, t.features[u.2]? = some (u.1.tag, lookups)) (key) :
    t.enabled key = (uses.filter (·.1 == key)).filterMap fun u => t.features[u.2]? := by
  have script : t.scripts.filter (·.tag == key.script) =
      if key.script ∈ uses.map (·.1.script) then [scriptEntry uses key.script] else [] := by
    rw [hscripts, scriptEntries_eq,
      filter_map_of_nodup (nodup_sort_distinct _) (scriptEntry uses) (·.tag) fun _ => rfl]
    simp only [mem_sort_distinct]
  have read (us : List (FeatureKey × Nat)) (hus : ∀ u ∈ us, u ∈ uses) :
      ((((us.filter (·.1.script == key.script)).filter (·.1.language == key.language)).map (·.2)).filterMap
        fun n => t.features[n]?).filter (·.1 == key.tag) =
        (us.filter (·.1 == key)).filterMap fun u => t.features[u.2]? := by
    induction us with
    | nil => rfl
    | cons u us ih =>
      have ih := ih fun x hx => hus x (.tail _ hx)
      obtain ⟨lookups, hu⟩ := htags u (hus u (.head _))
      obtain ⟨⟨tag, s, l⟩, n⟩ := u
      obtain ⟨tag', s', l'⟩ := key
      by_cases hs : s = s'
      · by_cases hl : l = l'
        · by_cases htag : tag = tag'
          all_goals simpa [hs, hl, htag, hu] using ih
        · simpa [hl] using ih
      · simpa [hs] using ih
  rw [Table.enabled, script]
  split
  · rw [flatMap_singleton, systems_scriptEntry, ← read uses fun _ hu => hu]
    unfold usedBy
    split
    · rw [flatMap_singleton]
    · next hnone =>
      have none : (uses.filter (·.1.script == key.script)).filter (·.1.language == key.language) = [] := by
        rw [filter_eq_nil_iff]
        intro u hu hlanguage
        exact hnone (any_eq_true.2 ⟨u, hu, hlanguage⟩)
      rw [none]
      rfl
  · next hnone =>
    have none : uses.filter (·.1 == key) = [] := by
      rw [filter_eq_nil_iff]
      intro u hu heq
      exact hnone (mem_map.2 ⟨u, hu, by rw [beq_iff_eq.1 heq]⟩)
    rw [none]
    rfl

lemma mem_indices {uses} (he : e ∈ scriptEntries uses)
    (hn : n ∈ e.indices) : ∃ u ∈ uses, u.2 = n := by
  obtain ⟨script, -, rfl⟩ := mem_map.1 he
  obtain ⟨ns, hns, hn⟩ := mem_flatten.1 hn
  have own : ∃ x ∈ languageEntries (uses.filter (·.1.script == script)), x.2 = ns := by
    rcases mem_append.1 hns with hns | hns
    · obtain ⟨x, hx, rfl⟩ := Option.map_eq_some_iff.1 (Option.mem_toList.1 hns)
      exact ⟨x, mem_of_find?_eq_some hx, rfl⟩
    · obtain ⟨x, hx, rfl⟩ := mem_map.1 hns
      exact ⟨x, (mem_filter.1 hx).1, rfl⟩
  obtain ⟨x, hx, rfl⟩ := own
  obtain ⟨language, -, rfl⟩ := mem_map.1 hx
  obtain ⟨u, hu, rfl⟩ := mem_map.1 hn
  exact ⟨u, (mem_filter.1 (mem_filter.1 hu).1).1, rfl⟩

/-! ### Filing features -/

def placeOfCall (builders : List BuilderId) (call : Nat × Lookup) : Work Nat := do
  match call.2 with
  | .ref { routine := some i, .. } =>
    match builders.idxOf? (← Work.builderOf i) with
    | some n => return n
    | none => throw .badValue
  | _ => throw .missingPart

def fileFeature (builders : List BuilderId) (x : Table × List (FeatureKey × Nat))
    (entry : FeatureKey × List (Nat × Lookup)) : Work (Table × List (FeatureKey × Nat)) := do
  let places ← entry.2.mapM (placeOfCall builders)
  let filed := addFeatureEntry x.1 entry.1.tag places
  return (filed.2, x.2 ++ [(entry.1, filed.1)])

lemma placeOfCall_eq_ok (h : (placeOfCall builders call).on w = (.ok n, w')) :
    w' = w ∧ ∃ i id, call.2.routine? = some i ∧ w.ofRoutine.find? (·.1 == i) = some (i, id) ∧
      builders.idxOf? id = some n := by
  unfold placeOfCall at h
  split at h
  · next name i hcall =>
    obtain ⟨id, u, hid, hplace⟩ := on_bind_eq_ok h
    rw [Work.builderOf, on_get_bind] at hid
    split at hid
    · next j id hfound =>
      cases hid
      obtain rfl : j = i := by simpa using List.find?_some hfound
      split at hplace
      · next n hn =>
        cases hplace
        exact ⟨rfl, j, id, by rw [hcall]; rfl, hfound, hn⟩
      · cases hplace
    · cases hid
  · cases h

lemma addFeatureEntry_spec (t) (tag) (lookups) :
    t.features <+: (addFeatureEntry t tag lookups).2.features ∧
      (addFeatureEntry t tag lookups).2.features[(addFeatureEntry t tag lookups).1]? = some (tag, lookups) ∧
      (t.features.Nodup → (addFeatureEntry t tag lookups).2.features.Nodup) ∧
      (addFeatureEntry t tag lookups).2.lookups = t.lookups := by
  unfold addFeatureEntry
  split
  · next i hi =>
    obtain ⟨hlt, heq, -⟩ := List.idxOf?_eq_some_iff.1 hi
    exact ⟨prefix_rfl, by rw [List.getElem?_eq_getElem hlt, heq], id, rfl⟩
  · next hnew =>
    refine ⟨prefix_append _ _, List.getElem?_concat_length, fun h => ?_, rfl⟩
    rw [← concat_eq_append]
    exact h.concat (List.idxOf?_eq_none_iff.1 hnew)

def IsFiled (builders : List BuilderId) (w : Workshop) (t : Table) (entry : FeatureKey × List (Nat × Lookup))
    (use : FeatureKey × Nat) : Prop :=
  use.1 = entry.1 ∧ ∃ places, t.features[use.2]? = some (entry.1.tag, places) ∧
    Forall₂ (fun call n => (placeOfCall builders call).on w = (.ok n, w)) entry.2 places

/-- What holds while features are filed: each entry that is done is filed, and nothing is filed twice. -/
structure Filed (builders : List BuilderId) (w : Workshop) (lookups : List (Option Finished))
    (filed : List (FeatureKey × List (Nat × Lookup))) (x : Table × List (FeatureKey × Nat)) (w' : Workshop) : Prop where
  workshop : w' = w
  lookups : x.1.lookups = lookups
  distinct : x.1.features.Nodup
  filed : Forall₂ (IsFiled builders w x.1) filed x.2

lemma Filed.step
    {s t} {entry} (h : Filed builders w lookups filed x s)
    (hrun : (fileFeature builders x entry).on s = (.ok y, t)) : Filed builders w lookups (filed ++ [entry]) y t := by
  obtain rfl := h.workshop
  obtain ⟨places, u, hplaces, hy⟩ := on_bind_eq_ok hrun
  obtain ⟨rfl, hplaces⟩ := on_mapM_forall₂ (fun h => (placeOfCall_eq_ok h).1) hplaces
  cases hy
  obtain ⟨⟨more, hmore⟩, hentry, hdistinct, hlookups⟩ := addFeatureEntry_spec x.1 entry.1.tag places
  refine ⟨rfl, hlookups.trans h.lookups, hdistinct h.distinct, ?_⟩
  refine rel_append (h.filed.imp fun e use hfiled => ?_) (.cons ⟨rfl, places, hentry, hplaces⟩ .nil)
  obtain ⟨hkey, places, hfeature, hcalls⟩ := hfiled
  refine ⟨hkey, places, ?_, hcalls⟩
  rw [← hmore, List.getElem?_append_left (List.getElem?_eq_some_iff.1 hfeature).1, hfeature]

/-! ### The table of a stage -/

/-- The own lookup of a routine stands at a place of the table: it was built from the rules of the routine and
finished for that place. -/
def LookupAt (glyphs : List String) (b : Book) (w : Workshop) (t : Table) (i : RoutineId) (n : Nat) : Prop :=
  ∃ id builder places l, w.ofRoutine.find? (·.1 == i) = some (i, id) ∧ MadeFor b i (some builder) ∧
    w.builders[id]? = some { builder with index := some n } ∧ t.lookups[n]? = some l ∧
    Builder.finish glyphs places { builder with index := some n } = .ok l

structure Encodes (glyphs : List String) (b : Book) (w : Workshop) (t : Table) (m : FeatureMap) : Prop where
  within : ∀ e ∈ t.scripts, ∀ n ∈ e.indices, n < t.features.length
  distinct : t.features.Nodup
  listed : ∀ {key calls}, m.get? key = some calls → ∃ is places, calls.map (·.2.routine?) = is.map some ∧
    Forall₂ (LookupAt glyphs b w t) is places ∧ t.enabled key = [(key.tag, places)]
  unlisted : ∀ {key}, m.get? key = none → t.enabled key = []

lemma forall₂_exists {α β γ : Type} {f : α → Option γ} {R} {l} {l' : List β}
    (h : Forall₂ (fun a b => ∃ c, f a = some c ∧ R c b) l l') :
    ∃ cs, l.map f = cs.map some ∧ Forall₂ R cs l' := by
  induction h with
  | nil => exact ⟨[], rfl, .nil⟩
  | cons hx _ ih =>
    obtain ⟨c, hc, hr⟩ := hx
    obtain ⟨cs, hcs, hrs⟩ := ih
    exact ⟨c :: cs, by rw [map_cons, map_cons, hc, hcs], .cons hr hrs⟩

lemma Filed.encodes
    {x} (h : Filed builders w lookups filed x w')
    (hm : m.Distinct) (hperm : Perm filed m)
    (hplaces : ∀ {call n}, (placeOfCall builders call).on w = (.ok n, w) →
      ∃ i, call.2.routine? = some i ∧ LookupAt glyphs b w x.1 i n) :
    Encodes glyphs b w { x.1 with scripts := scriptEntries x.2 } m := by
  have keys : x.2.map (·.1) = filed.map (·.1) := map_of_forall₂ (h.filed.imp fun _ _ hfiled => hfiled.1)
  have nodup : (x.2.map (·.1)).Nodup := by
    rw [keys]
    exact (hperm.map _).nodup_iff.2 hm
  have tags : ∀ use ∈ x.2, ∃ places, x.1.features[use.2]? = some (use.1.tag, places) := by
    intro use huse
    obtain ⟨entry, -, hkey, places, hfeature, -⟩ := forall₂_mem_right h.filed huse
    exact ⟨places, by rw [hkey, hfeature]⟩
  have enabled (key) : Table.enabled { x.1 with scripts := scriptEntries x.2 } key =
      (x.2.filter (·.1 == key)).filterMap fun use => x.1.features[use.2]? :=
    enabled_scriptEntries (t := { x.1 with scripts := scriptEntries x.2 }) rfl tags key
  constructor
  case within =>
    intro e he n hn
    obtain ⟨use, huse, rfl⟩ := mem_indices he hn
    obtain ⟨places, hfeature⟩ := tags use huse
    exact (List.getElem?_eq_some_iff.1 hfeature).1
  case distinct => exact h.distinct
  case listed =>
    intro key calls hget
    obtain ⟨use, huse, rfl, places, hfeature, hcalls⟩ :=
      forall₂_mem_left h.filed (hperm.mem_iff.2 (hm.mem_iff_get?.2 hget))
    obtain ⟨is, his, hats⟩ := forall₂_exists (hcalls.imp fun _ _ => hplaces)
    refine ⟨is, places, his, hats, ?_⟩
    rw [enabled, Dict.filter_of_mem nodup huse]
    exact filterMap_cons_some hfeature
  case unlisted =>
    intro key hnone
    have none : x.2.filter (·.1 == key) = [] := by
      refine filter_eq_nil_iff.2 fun use huse heq => ?_
      obtain ⟨entry, hentry, hkey, -⟩ := forall₂_mem_right h.filed huse
      obtain rfl : entry.1 = key := by rw [← hkey, eq_of_beq heq]
      rw [hm.mem_iff_get?.1 (hperm.mem_iff.1 hentry)] at hnone
      cases hnone
    rw [enabled, none]
    rfl

lemma onBook_eq_ok {act} {a : α} (h : (Work.onBook act).on w = (.ok a, w')) :
    ∃ b, act.on w.book = (.ok a, b) ∧ w' = { w with book := b } := by
  have run : (Work.onBook act).on w = ((act.on w.book).1, { w with book := (act.on w.book).2 }) :=
    on_ofExcept (act.on w.book).1 { w with book := (act.on w.book).2 }
  obtain ⟨hact, rfl⟩ := Prod.mk.inj (run.symm.trans h)
  exact ⟨_, Prod.ext hact rfl, rfl⟩

lemma lookupAt_of_place {ids} (hraised : Raised b start w ids)
    (hplaced : Placed glyphs start 0 w w' lookups) (hlength : lookups.length = w.builders.size - start) {t}
    (ht : t.lookups = lookups) {call} (h : (placeOfCall ids call).on w' = (.ok n, w')) :
    ∃ i, call.2.routine? = some i ∧ LookupAt glyphs b w' t i n := by
  obtain ⟨-, i, id, hi, hfound, hn⟩ := placeOfCall_eq_ok h
  -- Builders that stand in a row are found by their distance.
  rw [hraised.ids] at hn
  obtain ⟨hlt, hid, -⟩ := List.idxOf?_eq_some_iff.1 hn
  rw [length_range'] at hlt
  rw [getElem_range', Nat.one_mul] at hid
  subst hid
  obtain ⟨builder, places, l, hbuilder, hplace, hl, hfinish⟩ := hplaced.placed n (hlength ▸ hlt)
  rw [Nat.zero_add] at hplace hfinish
  have known : (i, start + n) ∈ w.ofRoutine := by
    rw [← hplaced.ofRoutine]
    exact mem_of_find?_eq_some hfound
  have made := hraised.made _ known (Nat.le_add_right start n)
  rw [hbuilder] at made
  exact ⟨i, hi, start + n, builder, places, l, hfound, made, hplace, ht ▸ hl, hfinish⟩

namespace Work

/-- The table of a stage says what the arrangement of the book says about that stage, and the builders of routines
stay known. -/
theorem table_encodes {glyphs : List String} {stage : Stage} {w w' : Workshop} {t : Table}
    (hknown : ∀ x ∈ w.ofRoutine, x.2 < w.builders.size) (h : (Work.table glyphs stage).on w = (.ok t, w')) :
    ∃ arranged b m, Act.arrangeByScripts.on w.book = (.ok arranged, b) ∧ callsOfStage b stage arranged = .ok m ∧
      Encodes glyphs b w' t m ∧ ∀ x ∈ w'.ofRoutine, x.2 < w'.builders.size := by
  obtain ⟨arranged, w₁, h₁, h⟩ := on_bind_eq_ok h
  obtain ⟨b, harranged, rfl⟩ := onBook_eq_ok h₁
  rw [on_bind_ok (on_get _)] at h
  obtain ⟨m, hm, h⟩ := on_ofExcept_bind h
  obtain ⟨routines, -, h⟩ := on_ofExcept_bind h
  obtain ⟨idss, w₄, hbuilt, h⟩ := on_bind_eq_ok h
  obtain ⟨lookups, w₅, hlookups, h⟩ := on_bind_eq_ok h
  obtain ⟨x, w₆, hfiled, h⟩ := on_bind_eq_ok h
  cases h
  have start : Raised b w.builders.size { w with book := b } [] := by
    refine ⟨fun _ => rfl, Nat.le_refl _, ?_, hknown, fun x hx hfrom => ?_⟩
    · rw [Nat.sub_self, List.range'_zero]
    · exact absurd (hknown x hx) (Nat.not_lt.2 hfrom)
  have raised := start.run hbuilt
  rw [List.nil_append] at raised
  have hbehind := raised.behind
  have placed : lookups.length = w₄.builders.size - w.builders.size ∧
      Placed glyphs w.builders.size 0 w₄ w₅ lookups := by
    rw [raised.ids] at hlookups
    exact finishBuilders_on (by omega) hlookups
  obtain ⟨hlength, placed⟩ := placed
  have filed := on_foldlM_invariant (Filed idss.flatten w₅ lookups) (fun _ => Filed.step)
    ⟨rfl, rfl, List.nodup_nil, .nil⟩ hfiled
  obtain rfl := filed.workshop
  refine ⟨arranged, b, m, harranged, hm, ?_, ?_⟩
  · have distinct := callsOfStage_distinct (Act.arrangeByScripts_distinct harranged) hm
    exact filed.encodes distinct (List.mergeSort_perm _ _) (lookupAt_of_place raised placed hlength filed.lookups)
  · rw [placed.ofRoutine, placed.size]
    exact raised.known

section Sample

def localLetter (a b : String) (systems : List LanguageSystem) : Rule :=
  { body := .substitution { input := some [[a]], replacement := some [[b]] }, languages := some (.pairs systems) }

/-- Two languages share a feature, and another script has one for its default language. -/
def localLetters : Book :=
  { routines := #[{ name := some "shared", content := .rules [0] }, { name := some "latin", content := .rules [1] }]
    rules := #[localLetter "a" "b" [("cyrl", "BGR "), ("cyrl", "SRB ")], localLetter "c" "d" [("latn", "dflt")]]
    order := [0, 1]
    usageMarked := true
    features := [("liga", [.ref ⟨some (some "shared"), some 0⟩]), ("locl", [.ref ⟨some (some "latin"), some 1⟩])] }

def arrangedLetters : Book :=
  { localLetters with
    routines :=
      #[{ name := some "shared", content := .rules [0], languages := .pairs [("cyrl", "BGR "), ("cyrl", "SRB ")] },
        { name := some "latin", content := .rules [1], languages := .pairs [("latn", "dflt")] }]
    scripts := [("cyrl", ["BGR ", "SRB "]), ("latn", ["dflt"])] }

def localFeatures : FeatureMap :=
  [(⟨"liga", "cyrl", "BGR "⟩, [(0, .ref ⟨some (some "shared"), some 0⟩)]),
    (⟨"liga", "cyrl", "SRB "⟩, [(0, .ref ⟨some (some "shared"), some 0⟩)]),
    (⟨"locl", "latn", "dflt"⟩, [(0, .ref ⟨some (some "latin"), some 1⟩)])]

/-- The table of the letters: two systems use one feature. -/
def localTable : Table :=
  { scripts := [{ tag := "cyrl", languages := [("BGR ", [0]), ("SRB ", [0])] }, { tag := "latn", default := some [1] }]
    features := [("liga", [0]), ("locl", [1])]
    lookups := [some { type := 1, flags := .bits 0 }, some { type := 1, flags := .bits 0 }] }

lemma arrangeByScripts_localLetters : arrangeByScripts.on localLetters = (.ok localFeatures, arrangedLetters) := by
  have split : (forRoutines splitByLanguage).on localLetters = (.ok (), localLetters) := by
    refine forRoutines_eq_ok.2 ?_
    rw [loop_next (by rfl), loop_next (t := localLetters) (by rfl),
      loop_stop (by rfl)]
  rw [arrangeByScripts_eq, on_bind_ok split]
  rfl

def localUses : List (FeatureKey × Nat) :=
  [(⟨"liga", "cyrl", "BGR "⟩, 0), (⟨"liga", "cyrl", "SRB "⟩, 0), (⟨"locl", "latn", "dflt"⟩, 1)]

lemma scriptEntries_localUses : scriptEntries localUses = localTable.scripts := by
  have sorted {l} h : sort l = l :=
    mergeSort_of_pairwise h
  have cyrillic : scriptEntry localUses "cyrl" = ⟨"cyrl", none, [("BGR ", [0]), ("SRB ", [0])]⟩ := by
    unfold scriptEntry languageEntries
    rw [sorted (by decide +kernel)]
    rfl
  have latin : scriptEntry localUses "latn" = ⟨"latn", some [1], []⟩ := by
    unfold scriptEntry languageEntries
    rw [sorted (by decide +kernel)]
    rfl
  rw [scriptEntries_eq, sorted (by decide +kernel)]
  show [scriptEntry localUses "cyrl", scriptEntry localUses "latn"] = _
  rw [cyrillic, latin]
  rfl

lemma table_localLetters : ∃ w, (Work.table ["a", "b", "c", "d"] .sub).on { book := localLetters } =
    (.ok localTable, w) := by
  have arranged : (Work.onBook arrangeByScripts).on { book := localLetters } =
      (.ok localFeatures, { book := arrangedLetters }) := by
    rw [Work.onBook, on_get_bind, arrangeByScripts_localLetters]
    rfl
  have sorted : (localFeatures.mergeSort fun a b => keyLe a.1 b.1) = localFeatures :=
    mergeSort_of_pairwise (by decide +kernel)
  have table : localTable = { localTable with scripts := scriptEntries localUses } := by
    rw [scriptEntries_localUses]
  rw [Work.table, on_bind_ok arranged, on_get_bind, on_bind_ok (a := localFeatures) (by rfl), sorted, table]
  exact ⟨_, by rfl⟩

theorem table_encodes_shared : ∃ w, (Work.table ["a", "b", "c", "d"] .sub).on { book := localLetters } =
    (.ok localTable, w) ∧ ∃ arranged b m, Act.arrangeByScripts.on localLetters = (.ok arranged, b) ∧
      callsOfStage b .sub arranged = .ok m ∧ Encodes ["a", "b", "c", "d"] b w localTable m := by
  obtain ⟨w, hrun⟩ := table_localLetters
  obtain ⟨arranged, b, m, harranged, hm, encodes, -⟩ := table_encodes (fun x hx => absurd hx List.not_mem_nil) hrun
  exact ⟨w, hrun, arranged, b, m, harranged, hm, encodes⟩

end Sample

end Work
end Build
end GlyphRules
