import GlyphRules.Proofs.Build.Reproduction
import GlyphRules.Proofs.Layout.Uses

/-! Substitution lookups, read and built again.

The type of a lookup is found again from the shape of its rules when they are sorted and built. So a
lookup comes back as it was where each entry has the shape of its type (`rebuild_lookup`). A glyph
that is replaced by one glyph is a single substitution, whatever lookup it came from; alternates are
not built. -/
namespace GlyphRules

open Step List Rule Book Dict

variable {ids : List RuleId} {i : RoutineId} {w : Workshop} {flags : Flags}

/-! ### Types of rules -/

namespace Rule

def OfType (r : Rule) (type : Int) : Prop :=
  (∃ s, r.body = .substitution s) ∧ ∀ b : Book, b.lookupType r = .ok (some type)

def type? (r : Rule) : Option Int := (({} : Book).lookupType r).toOption.getD none

lemma OfType.type?_eq {r : Rule} {type} (h : r.OfType type) : r.type? = some type := by
  rw [type?, h.2]
  rfl

lemma pieces_of_type {rules} {type} (hne : rules ≠ []) (h : ∀ r ∈ rules, r.OfType type) :
    pieces type? rules = [rules] :=
  pieces_of_eq hne fun r hr r' hr' => (h r hr).type?_eq.trans (h r' hr').type?_eq.symm

end Rule

lemma Act.partition_types (hs : Splittable b i)
    (hcontent : (b.routine i).content = .rules ids) (htypes : ∀ r ∈ b.rulesOf i, ∃ type, r.OfType type) :
    ∃ all b', (Act.partition i fun b r => b.lookupType r).on b = (.ok (some all), b') ∧
      all.map b'.rulesOf = pieces type? (b.rulesOf i) ∧
      ∀ j ∈ all, ∃ ids, (b'.routine j).content = .rules ids := by
  have known (id) hid : ∃ type, (b.rule id).OfType type := htypes _ (mem_map_of_mem hid)
  obtain ⟨all, b', hrun, split⟩ := Act.partition_on (fun b r => b.lookupType r) (fun id => (b.rule id).type?) hs
    fun b' _ id hid => by
      obtain ⟨type, htype⟩ := known id hid
      rw [htype.type?_eq]
      exact htype.2 b'
  refine ⟨all, b', hrun, ?_, fun j hj => ?_⟩
  · have rule (id) (hid : id ∈ b.ruleIds i) : b'.rule id = b.rule id := by
      obtain ⟨type, ⟨s, hs⟩, -⟩ := known id hid
      refine split.rule_of_ne fun c hc => ?_
      rw [hs] at hc
      cases hc
    have rules : all.map b'.rulesOf = (all.map b'.ruleIds).map (·.map b'.rule) := (map_map ..).symm
    rw [rules, split.map_ruleIds hcontent, rulesOf, pieces_map]
    refine map_congr_left fun piece hpiece => map_congr_left fun id hid => ?_
    exact rule id ((mem_piece hpiece).2 id hid).1
  · obtain ⟨g, -, hg⟩ := split.content_rules hcontent hj
    exact ⟨g, hg⟩

namespace Build

/-! ### Building rules of one type -/

def Yields (rules : List Rule) (flags : Flags) (contents : Contents) : Prop :=
  rules ≠ [] ∧ ∃ type, (∀ r ∈ rules, r.OfType type ∧ r.flags = flags) ∧
    ∀ w, (subContents (some type) rules).on w = (.ok contents, w)

lemma commonType_of_type {rules} {type} (hne : rules ≠ [])
    (h : ∀ r ∈ rules, r.OfType type) : commonType b rules = .ok (some type) := by
  obtain ⟨first, rest, rfl⟩ := exists_cons_of_ne_nil hne
  rw [commonType, mapM_ok fun r hr => (h r hr).2 b, ok_bind, map_const', length_cons,
    replicate_succ, headD_cons]
  have same : ¬(some type :: List.replicate rest.length (some type)).any (· != some type) = true := by
    rw [any_eq_true]
    rintro ⟨t, ht, hne⟩
    rw [← replicate_succ] at ht
    exact absurd (eq_of_mem_replicate ht) (by simpa using hne)
  rw [if_neg same]
  rfl

lemma buildRoutine_of_type
    (hcontent : (w.book.routine i).content = .rules ids) (hne : w.book.rulesOf i ≠ [])
    (h : ∀ r ∈ w.book.rulesOf i, r.OfType type ∧ r.flags = flags) : (buildRoutine i).on w =
      (ownBuilder i w.builders.size flags (subContents (some type) (w.book.rulesOf i))).on
        { w with book := w.book.alterRoutine i fun r => { r with flags } } := by
  have stage : (w.book.alterRoutine i fun r => { r with flags }).routineStage i = .ok (some .sub) := by
    rw [routineStage_flags]
    rw [rulesOf, ruleIds_rules hcontent] at hne h
    cases ids with
    | nil => exact absurd rfl hne
    | cons id ids =>
      obtain ⟨s, hs⟩ := (h (w.book.rule id) (.head _)).1.1
      unfold routineStage routineStageWithin
      simp only [hcontent, hs]
  rw [buildRoutine, on_get_bind]
  dsimp only
  rw [commonType_of_type hne fun r hr => (h r hr).1, on_bind_ok (on_ofExcept _ w)]
  split
  · next hnone => exact absurd hnone hne
  · next first rest hrules =>
    obtain rfl := (h first (hrules ▸ mem_cons_self ..)).2
    have oneFlag : ¬(w.book.rulesOf i).any (·.flags != first.flags) = true := by
      rw [any_eq_true]
      rintro ⟨r, hr, hdiff⟩
      rw [(h r hr).2] at hdiff
      simp at hdiff
    rw [if_neg oneFlag, on_bind_ok (x := Work.onBook _) rfl, on_get_bind, on_get_bind, stage]
    rfl

lemma buildRoutine_alternate (hcontent : (w.book.routine i).content = .rules ids) (hne : w.book.rulesOf i ≠ [])
    (h : ∀ r ∈ w.book.rulesOf i, r.OfType 3 ∧ r.flags = flags) :
    ∃ w', (buildRoutine i).on w = (.error (.refused (.buildSub 3)), w') := by
  rw [buildRoutine_of_type hcontent hne h]
  exact ⟨_, rfl⟩

lemma mapM_buildRoutine_yields {all} {cs}
    (hcontent : ∀ j ∈ all, ∃ ids, (w.book.routine j).content = .rules ids)
    (h : Forall₂ (fun j c => Yields (w.book.rulesOf j) flags c) all cs) :
    ∃ ids w', (all.mapM buildRoutine).on w = (.ok ids, w') ∧
      w'.builders.toList = w.builders.toList ++ cs.map fun contents => ⟨contents, flags, none⟩ := by
  induction all generalizing w cs with
  | nil =>
    cases h
    exact ⟨[], w, rfl, (append_nil _).symm⟩
  | cons i all ih =>
    cases h with
    | @cons _ c _ cs hi hall =>
      obtain ⟨ids, hids⟩ := hcontent i (.head _)
      obtain ⟨hne, type, htype, hyields⟩ := hi
      obtain ⟨id, w₁, hrun, hbuilders, hbook⟩ : ∃ id w', (buildRoutine i).on w = (.ok id, w') ∧
          w'.builders.toList = w.builders.toList ++ [⟨c, flags, none⟩] ∧
          w'.book = w.book.alterRoutine i fun r => { r with flags } := by
        rw [buildRoutine_of_type hids hne htype, ownBuilder, on_bind_ok (hyields _)]
        exact ⟨_, _, rfl, Array.toList_push, rfl⟩
      have built := buildRoutine_built hrun
      have content (j) : (w₁.book.routine j).content = (w.book.routine j).content := by
        rw [hbook]
        exact routine_alterRoutine_eq w.book i (fun r => by rfl) j
      obtain ⟨more, w', hrest, hbuilders'⟩ := ih (fun j hj => by rw [content]; exact hcontent j (.tail _ hj))
        (hall.imp fun j c hj => by rwa [built.rulesOf])
      refine ⟨id :: more, w', ?_, ?_⟩
      · rw [mapM_cons, on_bind_ok hrun, on_bind_ok hrest]
        rfl
      · rw [hbuilders', hbuilders, append_assoc]
        rfl

/-! ### Contents of entries -/

section Entries
variable {flags : Int} {n : Nat}

open Layout.subtableRules (substitution)

/-- Rules that are put one after the other, each under a key of its own, come out as they stand. -/
lemma foldlM_entries [BEq κ] [LawfulBEq κ] {m : List (κ × ν)} (hkeys : (m.map (·.1)).Nodup) {rule}
    {read : List (κ × ν) → Rule → Work (List (κ × ν))}
    (hread : ∀ d, ∀ x ∈ m, (read d (rule x)).on w = (.ok (Dict.set d x.1 x.2), w)) :
    ((m.map rule).foldlM read []).on w = (.ok m, w) := by
  rw [foldlM_map, on_foldlM_pure hread]
  exact congrArg (fun l => (Except.ok l, w)) (merge_of_nodup hkeys)

lemma yields_single (hne : m ≠ []) (hkeys : (m.map (·.1)).Nodup) :
    Yields (m.map fun x => substitution flags n [[x.1]] [[x.2]]) (.bits flags) (.single m) := by
  refine ⟨by simpa using hne, 1, fun r hr => ?_, fun w => ?_⟩
  · obtain ⟨x, -, rfl⟩ := mem_map.1 hr
    exact ⟨⟨⟨_, rfl⟩, fun _ => rfl⟩, rfl⟩
  · show (singleContents _).on w = _
    rw [singleContents, on_bind_ok (foldlM_entries hkeys fun d x _ => ?_), on_pure]
    rfl

/-- Whether a glyph is replaced by one glyph. -/
def isOne (x : String × List String) : Bool := x.2.length == 1

lemma ofType_entry (flags) (n) (x) :
    (substitution flags n [[x.1]] (x.2.map ([·]))).OfType (if isOne x then 1 else 2) := by
  obtain ⟨a, out⟩ := x
  refine ⟨⟨_, rfl⟩, fun b => ?_⟩
  cases out with
  | nil => rfl
  | cons g out =>
    cases out with
    | nil => rfl
    | cons => rfl

lemma yields_multiple (hne : m ≠ []) (hkeys : (m.map (·.1)).Nodup)
    (hone : ∀ x ∈ m, isOne x = false) :
    Yields (m.map fun x => substitution flags n [[x.1]] (x.2.map ([·]))) (.bits flags) (.multiple m) := by
  refine ⟨by simpa using hne, 2, fun r hr => ?_, fun w => ?_⟩
  · obtain ⟨x, hx, rfl⟩ := mem_map.1 hr
    have type := ofType_entry flags n x
    rw [hone x hx] at type
    exact ⟨type, rfl⟩
  · show (multipleContents _).on w = _
    rw [multipleContents, on_bind_ok (foldlM_entries hkeys fun d x _ => ?_), on_pure]
    rw [on_bind_ok (asSubstitution_on rfl w), on_bind_ok (needed_on rfl w), on_bind_ok (firstOf_mapM_on (by simp) w),
      map_map]
    exact congrArg (fun l => (Except.ok (Dict.set d x.1 l), w)) (map_id x.2)

/-- The sequences of ligatures that are listed by their first glyphs. -/
def sequences (m : List (String × List (List String × String))) : List (List String × String) :=
  m.flatMap fun x => x.2.map fun y => (x.1 :: y.1, y.2)

lemma product_singletons (l) : product (l.map ([·])) = [l] := by
  induction l with
  | nil => rfl
  | cons g l ih =>
    rw [map_cons, product, ih]
    rfl

lemma yields_ligature (hne : l ≠ []) (hkeys : (l.map (·.1)).Nodup)
    (hlong : ∀ x ∈ l, 2 ≤ x.1.length) :
    Yields (l.map fun x => substitution flags n (x.1.map ([·])) [[x.2]]) (.bits flags) (.ligature l) := by
  refine ⟨by simpa using hne, 4, fun r hr => ?_, fun w => ?_⟩
  · obtain ⟨⟨q, g⟩, hx, rfl⟩ := mem_map.1 hr
    have hlong := hlong _ hx
    refine ⟨⟨⟨_, rfl⟩, fun b => ?_⟩, rfl⟩
    cases q with
    | nil => cases hlong
    | cons first q =>
      cases q with
      | nil => exact absurd hlong (Nat.lt_irrefl 1)
      | cons => rfl
  · show (ligatureContents _).on w = _
    rw [ligatureContents, on_bind_ok (foldlM_entries hkeys fun d x _ => ?_), on_pure]
    rw [on_bind_ok (asSubstitution_on rfl w), on_bind_ok (needed_on rfl w), product_singletons]
    rfl

def reversed (flags : Int) (r : ReverseRule) : Rule :=
  { body := .substitution { input := some [r.mapping.map (·.1)], replacement := some [r.mapping.map (·.2)]
                            before := r.before, after := r.after, reversal := .backward }
    flags := .bits flags }

lemma yields_reverse {rules} (hne : rules ≠ []) (hone : ∀ r ∈ rules, r.mapping.length = 1) :
    Yields (rules.map (reversed flags)) (.bits flags) (.reverse rules) := by
  refine ⟨by simpa using hne, 8, fun r hr => ?_, fun w => ?_⟩
  · obtain ⟨x, -, rfl⟩ := mem_map.1 hr
    exact ⟨⟨⟨_, rfl⟩, fun _ => rfl⟩, rfl⟩
  · have read (r) (hr : r ∈ rules) : (reverseRule (reversed flags r)).on w = (.ok r, w) := by
      obtain ⟨before, after, mapping⟩ := r
      obtain ⟨x, rfl⟩ := length_eq_one_iff.1 (hone _ hr)
      rfl
    show (do return Contents.reverse (← (rules.map (reversed flags)).mapM reverseRule)).on w = _
    have all := on_mapM_pure (f := reverseRule ∘ reversed flags) (g := id) read
    rw [mapM_map, on_bind_ok all, map_id]
    rfl

end Entries

end Build

/-! ### Lookups -/

namespace Layout

open Build

/-- What a lookup of substitutions maps. -/
inductive Mapping where
  | single (entries : List (String × String))
  | multiple (entries : List (String × List String))
  | alternate (entries : List (String × List String))
  /-- By first glyph: the glyphs after it, and the ligature. -/
  | ligature (entries : List (String × List (List String × String)))
  | reverse (rules : List ReverseRule)

namespace Mapping
variable {m : Mapping}

def type : Mapping → Int
  | single _ => 1
  | multiple _ => 2
  | alternate _ => 3
  | ligature _ => 4
  | reverse _ => 8

/-- The subtable of a reverse substitution; what stands before is held from the nearest glyph on. -/
def reverseSubtable (r : ReverseRule) : Subtable :=
  .reverse (r.mapping.map (·.1)) (r.mapping.map (·.2)) r.before.reverse r.after

def subtables : Mapping → List Subtable
  | single entries => [.single entries]
  | multiple entries => [.multiple entries]
  | alternate entries => [.alternate entries]
  | ligature entries => [.ligature entries]
  | reverse rules => rules.map reverseSubtable

def lookup (m : Mapping) (flags : Int) (filter : Option Nat) : LookupTable :=
  { type := m.type, flags, filter, subtables := m.subtables }

/-- A lookup that maps something, each glyph or sequence once; a ligature is of two glyphs at least, and
a reverse substitution of one. -/
def Clean : Mapping → Prop
  | single entries => entries ≠ [] ∧ (entries.map (·.1)).Nodup
  | multiple entries => entries ≠ [] ∧ (entries.map (·.1)).Nodup
  | alternate entries => entries ≠ [] ∧ (entries.map (·.1)).Nodup
  | ligature entries => (entries.map (·.1)).Nodup ∧ sequences entries ≠ [] ∧
      ((sequences entries).map (·.1)).Nodup ∧ ∀ x ∈ sequences entries, 2 ≤ x.1.length
  | reverse rules => rules ≠ [] ∧ ∀ r ∈ rules, r.mapping.length = 1

def contents? : Mapping → Option Contents
  | single entries => some (.single entries)
  | multiple entries => some (.multiple entries)
  | alternate _ => none
  | ligature entries => some (.ligature (sequences entries))
  | reverse rules => some (.reverse rules)

/-- The contents for entries that are of one kind. -/
def ofPart (part : List (String × List String)) : Contents :=
  if part.all isOne then .single (part.map fun x => (x.1, x.2.headD "")) else .multiple part

/-- The contents of the builders: what is replaced by one glyph is apart. -/
def built : Mapping → List Contents
  | multiple entries => (pieces isOne entries).map ofPart
  | m => m.contents?.toList

/-! #### Reading -/

open subtableRules (substitution)

def rules (flags : Int) (n : Nat) : Mapping → List Rule
  | single entries => entries.map fun x => substitution flags n [[x.1]] [[x.2]]
  | multiple entries => entries.map fun x => substitution flags n [[x.1]] (x.2.map ([·]))
  | alternate entries => entries.map fun x => substitution flags n [[x.1]] [x.2] true
  | ligature entries => (sequences entries).map fun x => substitution flags n (x.1.map ([·])) [[x.2]]
  | reverse rules => rules.map (reversed flags)

lemma subtableRules_mapM (hm : m.Clean) (s) (markToMark) (flags) (n count) :
    ∃ parts, (m.subtables.mapM (subtableRules s markToMark flags n)).run count = .ok (parts, count) ∧
      parts.flatten = m.rules flags n := by
  cases m with
  | single entries | multiple entries | alternate entries =>
    refine ⟨[(Dict.merge [] entries).map _], rfl, ?_⟩
    rw [merge_of_nodup hm.2, flatten_singleton]
    rfl
  | ligature entries =>
    refine ⟨[(merge [] entries).flatMap fun x =>
      x.2.map fun y => substitution flags n ((x.1 :: y.1).map ([·])) [[y.2]]], rfl, ?_⟩
    rw [merge_of_nodup hm.1, flatten_singleton]
    show _ = (sequences entries).map _
    rw [sequences, map_flatMap]
    simp only [map_map, Function.comp_def]
  | reverse rules =>
    have one : subtableRules s markToMark flags n ∘ reverseSubtable = fun r => pure [reversed flags r] := by
      funext r
      show pure [reversed flags { r with before := r.before.reverse.reverse }] = _
      rw [reverse_reverse]
    refine ⟨rules.map fun r => [reversed flags r], ?_, (map_eq_flatMap ..).symm⟩
    rw [subtables, mapM_map, one, mapM_pure]
    rfl

lemma lookupRoutine_on (hm : m.Clean) {s} (hkind : s.kind = .substitution)
    {names} (hnames : s.names = some names) {flags} {filter}
    (hmarks : ∀ name, ∃ r, flagged s (m.lookup flags filter) name = .ok r) (n count) :
    ∃ routine, (lookupRoutine s n (m.lookup flags filter)).run count = .ok ((routine, m.rules flags n), count + 1) := by
  obtain ⟨label, plain, notLigature, notCursive⟩ : ∃ label, lookupRoutine s n (m.lookup flags filter) =
      plainLookup s n (m.lookup flags filter) label ∧ ¬(label == "MarkToLigature") = true ∧
        ¬(label == "CursiveAttachment") = true := by
    rw [lookupRoutine, hkind]
    cases m <;> exact ⟨_, rfl, by decide, by decide⟩
  obtain ⟨name, hname⟩ : ∃ name, (routineName s label).run count = .ok (name, count + 1) := by
    rw [routineName, hnames]
    exact ⟨_, rfl⟩
  obtain ⟨routine, hroutine⟩ := hmarks name
  obtain ⟨parts, hparts, hrules⟩ := subtableRules_mapM hm s (label == "MarkToMark") flags n (count + 1)
  rw [plain]
  refine ⟨routine, plainLookup_eq_ok.2 ⟨name, count + 1, hname, hroutine, ?_⟩⟩
  rw [plainRules, if_neg notLigature, if_neg notCursive, ← hrules]
  exact reading_bind_eq_ok.2 ⟨parts, count + 1, hparts, rfl⟩

/-! #### Building -/

lemma yields_ofPart (hkeys : (entries.map (·.1)).Nodup)
    (hpart : part ∈ pieces isOne entries) (flags) (n) :
    Yields (part.map fun x => substitution flags n [[x.1]] (x.2.map ([·]))) (.bits flags) (ofPart part) := by
  obtain ⟨hne, same⟩ := mem_piece hpart
  have keys : (part.map (·.1)).Nodup := by
    obtain ⟨v, -, rfl⟩ := mem_map.1 hpart
    exact hkeys.sublist (filter_sublist.map _)
  unfold ofPart
  split
  · next hone =>
    have single : part.map (fun x => substitution flags n [[x.1]] (x.2.map ([·]))) =
        (part.map fun x => (x.1, x.2.headD "")).map fun x => substitution flags n [[x.1]] [[x.2]] := by
      rw [map_map]
      refine map_congr_left fun x hx => ?_
      obtain ⟨g, hg⟩ := length_eq_one_iff.1 (eq_of_beq (all_eq_true.1 hone x hx))
      rw [Function.comp, hg]
      rfl
    rw [single]
    refine yields_single (by simpa using hne) ?_
    rwa [map_map]
  · next hone =>
    refine yields_multiple hne keys fun x hx => Bool.eq_false_iff.2 fun h => hone (all_eq_true.2 fun y hy => ?_)
    rw [(same y hy).2 x hx, h]

lemma yields_built (hm : m.Clean) (htype : m.type ≠ 3) (flags) (n) :
    Forall₂ (fun rules contents => Yields rules (.bits flags) contents) (pieces type? (m.rules flags n)) m.built := by
  have alone {rules} {contents} (h : Yields rules (.bits flags) contents) :
      Forall₂ (fun rules contents => Yields rules (.bits flags) contents) (pieces type? rules) [contents] := by
    have ⟨hne, type, htype, _⟩ := h
    exact pieces_of_type hne (fun r hr => (htype r hr).1) ▸ .cons h .nil
  cases m with
  | single entries => exact alone (yields_single hm.1 hm.2)
  | multiple entries =>
    have types : (type? ∘ fun x : String × List String => substitution flags n [[x.1]] (x.2.map ([·]))) =
        (fun one : Bool => some (if one then 1 else 2)) ∘ isOne := funext fun x => (ofType_entry flags n x).type?_eq
    have parted : pieces type? (rules flags n (multiple entries)) = (pieces isOne entries).map
        (·.map fun x => substitution flags n [[x.1]] (x.2.map ([·]))) := by
      rw [rules, pieces_map, types, pieces_comp (by decide)]
    rw [parted, built, List.forall₂_map_left_iff, List.forall₂_map_right_iff, List.forall₂_same]
    exact fun part hpart => yields_ofPart hm.2 hpart flags n
  | alternate entries => exact absurd rfl htype
  | ligature entries => exact alone (yields_ligature hm.2.1 hm.2.2.1 hm.2.2.2)
  | reverse rules => exact alone (yields_reverse hm.1 hm.2)

lemma built_of_shape (hm : m.Clean)
    (hshape : ∀ entries, m = multiple entries → ∀ x ∈ entries, x.2.length ≠ 1) : m.built = m.contents?.toList := by
  cases m with
  | multiple entries =>
    have other (x) hx : isOne x = false := beq_eq_false_iff_ne.2 (hshape entries rfl x hx)
    have one : pieces isOne entries = [entries] :=
      pieces_of_eq hm.1 fun x hx y hy => (other x hx).trans (other y hy).symm
    obtain ⟨x, rest, rfl⟩ := exists_cons_of_ne_nil hm.1
    rw [built, one, map_singleton, ofPart, all_cons, other x (.head _)]
    rfl
  | single | alternate | ligature | reverse => rfl

/-- Alternates keep their type, so that their rules stay in one routine. -/
lemma alternate_type (htype : m.type = 3) (flags) (n) :
    ∀ r ∈ m.rules flags n, r.OfType 3 ∧ r.flags = .bits flags := by
  intro r hr
  cases m with
  | alternate entries =>
    obtain ⟨x, -, rfl⟩ := mem_map.1 hr
    exact ⟨⟨⟨_, rfl⟩, fun _ => rfl⟩, rfl⟩
  | single | multiple | ligature | reverse => exact absurd htype (by simp [type])

lemma rules_types (hm : m.Clean) {flags} {n} : ∀ r ∈ m.rules flags n, ∃ type, r.OfType type := by
  intro r hr
  by_cases htype : m.type = 3
  · exact ⟨3, (alternate_type htype flags n r hr).1⟩
  · obtain ⟨piece, hpiece, hr⟩ := exists_piece type? hr
    obtain ⟨contents, -, -, type, htypes, -⟩ := forall₂_mem_left (yields_built hm htype flags n) hpiece
    exact ⟨type, (htypes r hr).1⟩

end Mapping

open Mapping

/-- A lookup of substitutions is read, and its rules, wherever they stand in a book, are split by type and
built. Alternates are refused. Else there is one builder for each type, and this is one that holds the
mapping as it was if no entry of a multiple substitution has one glyph. -/
theorem rebuild_lookup {m : Mapping} (hm : m.Clean) {s : Setting} (hkind : s.kind = .substitution)
    {names : List (String × String)} (hnames : s.names = some names) {flags : Int} {filter : Option Nat}
    (hmarks : ∀ name, ∃ r, flagged s (m.lookup flags filter) name = .ok r) (n count : Nat) :
    ∃ routine rules, (lookupRoutine s n (m.lookup flags filter)).run count = .ok ((routine, rules), count + 1) ∧
      ∀ {b : Book} {i : RoutineId} {ids : List RuleId}, Splittable b i → (b.routine i).content = .rules ids →
        b.rulesOf i = rules → ∃ all b', (Act.partition i fun b r => b.lookupType r).on b = (.ok (some all), b') ∧
          (m.type = 3 → ((all.mapM buildRoutine).on { book := b' }).1 = .error (.refused (.buildSub 3))) ∧
          (m.type ≠ 3 → ∃ built w, (all.mapM buildRoutine).on { book := b' } = (.ok built, w) ∧
            w.builders.toList = m.built.map fun contents => ⟨contents, .bits flags, none⟩) ∧
          ((∀ entries, m = .multiple entries → ∀ x ∈ entries, x.2.length ≠ 1) → m.built = m.contents?.toList) := by
  obtain ⟨routine, hread⟩ := lookupRoutine_on hm hkind hnames hmarks n count
  refine ⟨routine, m.rules flags n, hread, fun {b i ids} hs hcontent hrules => ?_⟩
  obtain ⟨all, b', hrun, hpieces, hplain⟩ := Act.partition_types hs hcontent (hrules ▸ rules_types hm)
  rw [hrules] at hpieces
  refine ⟨all, b', hrun, fun htype => ?_, fun htype => ?_, built_of_shape hm⟩
  · have types := alternate_type htype flags n
    have hne : m.rules flags n ≠ [] := fun h => hs.nonempty (List.map_eq_nil_iff.1 (hrules.trans h))
    rw [Rule.pieces_of_type hne fun r hr => (types r hr).1] at hpieces
    obtain ⟨j, rfl, hj⟩ := List.map_eq_singleton_iff.1 hpieces
    obtain ⟨ids, hids⟩ := hplain j (List.mem_singleton_self j)
    obtain ⟨w, hrefused⟩ := buildRoutine_alternate (w := { book := b' }) hids (hj ▸ hne) (hj ▸ types)
    rw [List.mapM_cons, on_bind_error hrefused]
  · have yields := yields_built hm htype flags n
    rw [← hpieces, List.forall₂_map_left_iff] at yields
    obtain ⟨built, w, hbuilt, hbuilders⟩ := mapM_buildRoutine_yields (w := { book := b' }) hplain yields
    exact ⟨built, w, hbuilt, hbuilders⟩

section Sample

def bookOf (m : Mapping) : Book :=
  ((Act.readTable .substitution {} (some []) { scripts := some [], lookups := some [m.lookup 8 none] }).on {}).2

/-- One glyph for another, and two for another. -/
def mixedMapping : Mapping := .multiple [("a", ["b"]), ("c", ["a", "b"])]

theorem rebuild_lookup_mixed : ∃ all b' built w,
    (Act.partition 0 fun b r => b.lookupType r).on (bookOf mixedMapping) = (.ok (some all), b') ∧
      (all.mapM buildRoutine).on { book := b' } = (.ok built, w) ∧
      w.builders.toList = [⟨.single [("a", "b")], .bits 8, none⟩, ⟨.multiple [("c", ["a", "b"])], .bits 8, none⟩] := by
  have splittable : Splittable (bookOf mixedMapping) 0 :=
    ⟨by decide, by decide, by decide, by decide, by decide, Book.coherent_of_ungrouped (by decide)⟩
  obtain ⟨routine, rules, hread, h⟩ := @rebuild_lookup mixedMapping ⟨by decide, by decide⟩
    { kind := .substitution, tables := {}, names := some [], first := 0, count := 1 } rfl [] rfl 8 none
    (fun _ => ⟨_, rfl⟩) 0 0
  have hrules : (bookOf mixedMapping).rulesOf 0 = rules := by
    cases hread
    rfl
  obtain ⟨all, b', hrun, -, hbuilt, -⟩ := h splittable rfl hrules
  obtain ⟨built, w, hbuild, hbuilders⟩ := hbuilt (by decide)
  exact ⟨all, b', built, w, hrun, hbuild, hbuilders⟩

/-- **Alternates are refused, and a lookup with a glyph for one gets a second builder**. -/
theorem rebuild_refused : (∃ all b',
    (Act.partition 0 fun b r => b.lookupType r).on (bookOf (.alternate [("a", ["b", "c"])])) = (.ok (some all), b') ∧
      ((all.mapM buildRoutine).on { book := b' }).1 = .error (.refused (.buildSub 3))) ∧
    ∃ all b', (Act.partition 0 fun b r => b.lookupType r).on (bookOf mixedMapping) = (.ok (some all), b') ∧
      ((all.mapM buildRoutine).on { book := b' }).2.builders.size = 2 :=
  ⟨⟨_, _, by rfl, by rfl⟩, _, _, by rfl, by decide +kernel⟩

end Sample

end Layout
end GlyphRules
