import GlyphRules.Proofs.Feature.Preamble

/-! What the statement of a routine defines and calls.

A routine is written as one lookup under its own name, or inside a feature as a row of parts, under
names that begin with its name. Either way the statement calls just what the chains of the routine
call (`routineStatement_writes`). -/
namespace GlyphRules

open Step List Rule Lookup Book Act

variable {b b' : Book} {ids : List RuleId} {id : RuleId} {i : RoutineId} {n : String} {st : Statement}

def Book.namesIn (b : Book) (ids : List RuleId) : List String := ids.flatMap fun id => (b.rule id).callNames

lemma Book.mem_namesIn : m ∈ b.namesIn ids ↔ ∃ id ∈ ids, m ∈ (b.rule id).callNames := mem_flatMap

lemma Kept.callNames (h : Kept b b') (hid : id < b.rules.size) (hready : b.CallsReady id) :
    (b'.rule id).callNames = (b.rule id).callNames := by
  unfold Rule.callNames
  rw [h.entries hid hready]

lemma Kept.namesIn (h : Kept b b') (hids : ∀ id ∈ ids, id < b.rules.size ∧ b.CallsReady id) :
    b'.namesIn ids = b.namesIn ids := by
  refine flatMap_congr fun id hid => ?_
  obtain ⟨hlt, hready⟩ := hids id hid
  exact h.callNames hlt hready

lemma Book.Prepared.onlyRefs (h : b.Prepared i n ids) : ∀ r ∈ b.rulesOf i, r.OnlyRefs := by
  intro r hr l hl
  obtain ⟨id, hid, rfl⟩ := mem_map.1 hr
  rw [ruleIds_rules h.content] at hid
  obtain ⟨m, j, rfl, -⟩ := (h.rules id hid).2.ready l hl
  exact ⟨_, rfl⟩

namespace Feature

/-! ### Parts -/

lemma splitOff_on {label n} {p} (hname : of_.name = some n) (hn : n ≠ "")
    (hcontent : part.content = .rules ids) (hb : b.Coherent) (hids : ∀ id ∈ ids, id < b.rules.size ∧ b.CallsReady id)
    (hrun : (splitOff of_ label part).on b = (.ok p, b')) : b'.Prepared p (n ++ "_" ++ label) ids := by
  have kept := ((keeps_splitOff Keeping.addRoutine of_ label part).of_on hrun hb).1
  have ready := kept.allReady hids
  have run : (splitOff of_ label part).on b = (.ok b.routines.size,
      (b.addRoutine { part with name := some (n ++ "_" ++ label) }).2) := by
    rw [splitOff, hname]
    split
    · next h => exact absurd (Option.some.inj h) hn
    · next h => cases h
    · next h =>
      cases h
      rfl
  rw [run] at hrun
  cases hrun
  have own : (b.addRoutine { part with name := some (n ++ "_" ++ label) }).2.routine b.routines.size =
      { part with name := some (n ++ "_" ++ label) } := by simp [routine_eq, addRoutine]
  refine ⟨by simp [addRoutine], ?_, ?_, by simp, ready⟩
  · rwa [own]
  · rw [own]

structure Divided (b : Book) (n : String) (calls : List String) (parts : List RoutineId) : Prop where
  prepared : ∀ p ∈ parts, ∃ x ids, b.Prepared p (n ++ "_" ++ x) ids
  calls : ∀ m, m ∈ calls ↔ ∃ p ∈ parts, m ∈ b.namesIn (b.ruleIds p)

lemma splitInto_on [BEq κ] {of_} {parts} {keys : List (RuleId × κ)}
    {label} {part} (hname : of_.name = some n) (hn : n ≠ "")
    (hcontent : ∀ k ids, (part k ids).content = .rules ids) (hb : b.Coherent)
    (hkeys : ∀ x ∈ keys, x.1 < b.rules.size ∧ b.CallsReady x.1)
    (hrun : (splitInto of_ label part (groupBy keys)).on b = (.ok parts, b')) :
    Divided b' n (b.namesIn (keys.map (·.1))) parts := by
  have ready : ∀ g ∈ groupBy keys, ∀ id ∈ g.2, id < b.rules.size ∧ b.CallsReady id := by
    intro g hg id hid
    obtain ⟨k, hk⟩ := mem_groupBy.1 ⟨g, hg, hid⟩
    exact hkeys _ hk
  have keeps (g : κ × List RuleId) : Keeps Keeping (splitOff of_ (label g.1) (part g.1 g.2)) :=
    keeps_splitOff Keeping.addRoutine _ _ _
  have kept : Kept b b' := ((keeps_splitInto Keeping.addRoutine _ _ _ _).of_on hrun hb).1
  have each : Forall₂ (fun g p => g ∈ groupBy keys ∧ b'.Prepared p (n ++ "_" ++ label g.1) g.2)
      (groupBy keys) parts := by
    refine (Keeping.on_mapM keeps hb hrun).imp ?_
    rintro g p ⟨hg, s, t, before, hs, hp, after⟩
    have hids := before.allReady (ready g hg)
    exact ⟨hg, after.prepared (splitOff_on hname hn (hcontent g.1 g.2) hs hids hp)⟩
  have same {g p} (hg : g ∈ groupBy keys) (hp : b'.Prepared p (n ++ "_" ++ label g.1) g.2) :
      b'.namesIn (b'.ruleIds p) = b.namesIn g.2 := by
    rw [ruleIds_rules hp.content]
    exact kept.namesIn (ready g hg)
  refine ⟨fun p hp => ?_, fun m => ⟨fun hm => ?_, ?_⟩⟩
  · obtain ⟨g, -, -, prepared⟩ := forall₂_mem_right each hp
    exact ⟨_, _, prepared⟩
  · obtain ⟨id, hid, hm⟩ := mem_namesIn.1 hm
    obtain ⟨⟨id, k⟩, hk, rfl⟩ := mem_map.1 hid
    obtain ⟨g, hg, hid⟩ := mem_groupBy.2 ⟨k, hk⟩
    obtain ⟨p, hp, -, prepared⟩ := forall₂_mem_left each hg
    exact ⟨p, hp, same hg prepared ▸ mem_namesIn.2 ⟨id, hid, hm⟩⟩
  · rintro ⟨p, hp, hm⟩
    obtain ⟨g, hg, -, prepared⟩ := forall₂_mem_right each hp
    rw [same hg prepared] at hm
    obtain ⟨id, hid, hm⟩ := mem_namesIn.1 hm
    obtain ⟨k, hk⟩ := mem_groupBy.1 ⟨g, hg, hid⟩
    exact mem_namesIn.2 ⟨id, mem_map_of_mem hk, hm⟩

/-! ### Copies for languages -/

structure Copied (b : Book) (names : List String) (id : RuleId) : Prop where
  size : id < b.rules.size
  ready : b.CallsReady id
  names : (b.rule id).callNames = names

lemma Copied.kept {names} (h : Copied b names id) (hb' : Kept b b') : Copied b' names id :=
  ⟨h.size.trans_le hb'.rules, hb'.callsReady h.size h.ready, (hb'.callNames h.size h.ready).trans h.names⟩

lemma copied_addRule {r : Rule}
    (h : ∀ l ∈ r.chained.entries, ∃ n i, l = .ref ⟨some (some n), some i⟩ ∧ n ≠ "" ∧ i < b.routines.size) :
    Copied (b.addRule r).2 r.callNames b.rules.size := by
  have own : (b.addRule r).2.rule b.rules.size = r := by simp [rule_eq, addRule]
  refine ⟨by simp [addRule], ⟨?_, ?_⟩, by rw [own]⟩
  · rw [CallsKnown, own]
    intro l hl
    obtain ⟨n, i, rfl, -, hi⟩ := h l hl
    exact ⟨_, i, rfl, hi⟩
  · rw [own]
    intro l hl
    obtain ⟨n, i, rfl, hn, -⟩ := h l hl
    exact ⟨n, i, rfl, hn⟩

lemma copyChain_on {calls calls'} (hb : b.Coherent) (hready : ∀ l ∈ calls.entries, l.Ready)
    (hrun : (eachCall copyCall calls).on b = (.ok calls', b')) :
    calls'.entries.filterMap given? = calls.entries.filterMap given? ∧
    ∀ l ∈ calls'.entries, ∃ n i, l = .ref ⟨some (some n), some i⟩ ∧ n ≠ "" ∧ i < b'.routines.size := by
  have each : Forall₂ (fun l l' => l'.given? = l.given? ∧
      ∃ n i, l' = .ref ⟨some (some n), some i⟩ ∧ n ≠ "" ∧ i < b'.routines.size) calls.entries calls'.entries := by
    refine (Keeping.on_mapM keeps_copyCall hb (entries_eachCall hrun)).imp ?_
    rintro l l' ⟨hl, s, t, -, -, hcopy, after⟩
    obtain ⟨n, i, rfl, hn⟩ := hready l hl
    obtain ⟨j, b₁, hadded, hcopy⟩ := on_bind_eq_ok hcopy
    cases hadded
    cases hcopy
    refine ⟨rfl, n, _, rfl, hn, Nat.lt_of_lt_of_le ?_ after.routines⟩
    simp
  constructor
  · exact filterMap_of_forall₂ (each.imp fun _ _ h => h.1)
  · intro l' hl'
    obtain ⟨l, -, -, hl⟩ := forall₂_mem_right each hl'
    exact hl

lemma copyFor_on {language} (hb : b.Coherent)
    (hready : ∀ l ∈ r.chained.entries, l.Ready) (hrun : (copyFor r language).on b = (.ok id, b')) :
    Copied b' r.callNames id := by
  have free {b : Book} {r'} (hr : ∀ c, r.body ≠ .chaining c) (hr' : ∀ c, r'.body ≠ .chaining c) :
      Copied (b.addRule r').2 r.callNames b.rules.size := by
    have names : r.callNames = r'.callNames := by
      unfold callNames
      rw [chained_of_ne hr, chained_of_ne hr']
    rw [names]
    exact copied_addRule (by simp [chained_of_ne hr', Calls.entries])
  unfold copyFor at hrun
  split at hrun
  · next c hc =>
    obtain ⟨calls, s, hcalls, hrun⟩ := on_bind_eq_ok hrun
    cases hrun
    rw [chained_chaining hc] at hready
    obtain ⟨names, known⟩ := copyChain_on hb hready hcalls
    have own : r.callNames = calls.entries.filterMap given? := by
      rw [callNames, chained_chaining hc, names]
    rw [own]
    exact copied_addRule known
  · next sub hs =>
    obtain ⟨calls, s, hcalls, hrun⟩ := on_bind_eq_ok hrun
    cases hrun
    exact free (by simp [hs]) (by simp)
  · next hchain hsub =>
    cases hrun
    exact free hchain hchain

lemma languageParts_on {parts} (hb : b.Coherent)
    (hid : Copied b r.callNames id) (hready : ∀ l ∈ r.chained.entries, l.Ready)
    (hrun : (languageParts id r).on b = (.ok parts, b')) : parts ≠ [] ∧ ∀ p ∈ parts, Copied b' r.callNames p.1 := by
  have keeps l : Keeps Keeping (do return (← copyFor r l, l)) :=
    .bind (keeps_copyFor r l) fun _ => .pure _
  have copies ls (hls : ls ≠ [])
      (hrun : (ls.mapM fun l => do return (← copyFor r l, l)).on b =
        (.ok parts, b')) : parts ≠ [] ∧ ∀ p ∈ parts, Copied b' r.callNames p.1 := by
    have each := Keeping.on_mapM keeps hb hrun
    constructor
    · rintro rfl
      exact hls (List.forall₂_nil_right_iff.1 each)
    · intro p hp
      obtain ⟨l, -, -, s, t, -, hs, hcopy, after⟩ := forall₂_mem_right each hp
      obtain ⟨id', u, hcopy, hpure⟩ := on_bind_eq_ok hcopy
      cases hpure
      exact (copyFor_on hs hready hcopy).kept after
  unfold languageParts at hrun
  split at hrun
  iterate 3
    · cases hrun
      exact ⟨by simp, by simpa using hid⟩
  · next hls _ => exact copies _ (fun h => hls (by rw [h])) hrun
  · next text htext _ =>
    exact copies _ (fun h => htext (by simpa using h)) hrun

/-! ### Ways to split -/

section Ways
variable {parts : List RoutineId}

lemma typeGroups_eq (h : typeGroups b ids = .ok (some groups)) :
    ∃ keys : List (RuleId × TypeKey), keys.map (·.1) = ids ∧ groups = groupBy keys := by
  have keyed (ids : List RuleId) {keys}
      (h : (ids.mapM fun r => do return (r, ← typeKey (b.rule r))) = Except.ok keys) : keys.map (·.1) = ids := by
    induction ids generalizing keys with
    | nil =>
      cases h
      rfl
    | cons id ids ih =>
      rw [mapM_cons] at h
      obtain ⟨key, hkey, h⟩ := bind_eq_ok.1 h
      obtain ⟨rest, hrest, h⟩ := bind_eq_ok.1 h
      obtain ⟨k, -, hkey⟩ := bind_eq_ok.1 hkey
      cases hkey
      cases h
      rw [map_cons, ih hrest]
  obtain ⟨keys, hkeys, h⟩ := bind_eq_ok.1 h
  refine ⟨keys, keyed ids hkeys, ?_⟩
  dsimp only at h
  split at h
  · cases h
  split at h
  · cases h
  split at h
  · cases h
  · cases h
    rfl

section
variable (hb : b.Coherent) (hi : b.Prepared i n ids)
include hb hi

lemma arrangeByType_on (hrun : (arrangeByType i).on b = (.ok (some parts), b')) : Divided b' n (b.namesIn ids) parts := by
  rw [arrangeByType, on_get_bind] at hrun
  obtain ⟨groups, hgroups, hrun⟩ := on_ofExcept_bind hrun
  rw [ruleIds_rules hi.content] at hgroups
  cases groups with
  | none => cases hrun
  | some groups =>
    obtain ⟨parts', b₂, hparts, hrun⟩ := on_bind_eq_ok hrun
    cases hrun
    obtain ⟨keys, rfl, rfl⟩ := typeGroups_eq hgroups
    exact splitInto_on hi.name hi.named (fun _ _ => rfl) hb (fun x hx => hi.rules x.1 (mem_map_of_mem hx)) hparts

lemma arrangeByFlags_on (hrun : (arrangeByFlags i).on b = (.ok (some parts), b')) :
    Divided b' n (b.namesIn ids) parts := by
  rw [arrangeByFlags, on_get_bind, ruleIds_rules hi.content] at hrun
  obtain ⟨_, b₁, hset, hrun⟩ := on_bind_eq_ok hrun
  rw [on_get_bind] at hrun
  obtain ⟨kept, hb₁⟩ := (Keeps.forM ids fun id _ => keeps_defaultFlags id).of_on hset hb
  have hi₁ := kept.prepared hi
  split at hrun
  · obtain ⟨_, b₂, -, hrun⟩ := on_bind_eq_ok hrun
    split at hrun <;> cases hrun
  · obtain ⟨parts', b₂, hparts, hrun⟩ := on_bind_eq_ok hrun
    cases hrun
    have divided := splitInto_on hi₁.name hi₁.named (fun _ _ => rfl) hb₁ (fun x hx => ?_) hparts
    · rwa [map_map, Function.comp_def, map_id', kept.namesIn hi.rules] at divided
    · obtain ⟨id, hid, rfl⟩ := mem_map.1 hx
      exact hi₁.rules id hid

lemma arrangeByLanguage_on (hrun : (arrangeByLanguage i).on b = (.ok (some parts), b')) :
    Divided b' n (b.namesIn ids) parts := by
  rw [arrangeByLanguage, on_get_bind, ruleIds_rules hi.content] at hrun
  obtain ⟨keys, b₁, hkeys, hrun⟩ := on_bind_eq_ok hrun
  dsimp only at hrun
  split at hrun
  · cases hrun
  obtain ⟨parts', b₂, hparts, hrun⟩ := on_bind_eq_ok hrun
  cases hrun
  have keeps id : Keeps Keeping (languageParts id (b.rule id)) := keeps_languageParts id _
  obtain ⟨kept, hb₁⟩ := (Keeps.mapM ids fun id _ => keeps id).of_on hkeys hb
  have each : Forall₂ (fun id ks => id ∈ ids ∧ ks ≠ [] ∧ ∀ k ∈ ks, Copied b₁ (b.rule id).callNames k.1) ids keys := by
    refine (Keeping.on_mapM keeps hb hkeys).imp ?_
    rintro id ks ⟨hid, s, t, before, hs, hks, after⟩
    obtain ⟨hlt, hready⟩ := hi.rules id hid
    have own : Copied b (b.rule id).callNames id := ⟨hlt, hready, rfl⟩
    obtain ⟨some, copied⟩ := languageParts_on hs (own.kept before) hready.ready hks
    exact ⟨hid, some, fun k hk => (copied k hk).kept after⟩
  have divided := splitInto_on hi.name hi.named (fun _ _ => rfl) hb₁ (fun x hx => ?_) hparts
  · refine ⟨divided.prepared, fun m => .trans ⟨fun hm => ?_, fun hm => ?_⟩ (divided.calls m)⟩
    · obtain ⟨id, hid, hm⟩ := mem_namesIn.1 hm
      obtain ⟨ks, hks, -, some, copied⟩ := forall₂_mem_left each hid
      obtain ⟨k, hk⟩ := exists_mem_of_ne_nil ks some
      exact mem_namesIn.2 ⟨k.1, mem_map_of_mem (mem_flatten_of_mem hks hk), (copied k hk).names ▸ hm⟩
    · obtain ⟨id', hid', hm⟩ := mem_namesIn.1 hm
      obtain ⟨k, hk, rfl⟩ := mem_map.1 hid'
      obtain ⟨ks, hks, hk⟩ := mem_flatten.1 hk
      obtain ⟨id, -, hid, -, copied⟩ := forall₂_mem_right each hks
      exact mem_namesIn.2 ⟨id, hid, (copied k hk).names ▸ hm⟩
  · obtain ⟨ks, hks, hx⟩ := mem_flatten.1 hx
    obtain ⟨id, -, -, -, copied⟩ := forall₂_mem_right each hks
    exact ⟨(copied x hx).size, (copied x hx).ready⟩

end

lemma arrange_on (hb : b.Coherent) (hi : b.Prepared i n ids)
    (hrun : (arrange i).on b = (.ok (some (p :: parts)), b')) : Divided b' n (b.namesIn ids) (p :: parts) := by
  obtain ⟨kinds, b₁, hkinds, hrest⟩ := on_bind_eq_ok hrun
  -- Kinds never give parts, so the first split that counts is by types.
  obtain ⟨rfl, hnone⟩ : b₁ = b ∧ anyParts kinds = false := by
    unfold arrangeByKind at hkinds
    cases hkinds
    refine ⟨rfl, ?_⟩
    split <;> rfl
  rw [hnone] at hrest
  obtain ⟨types, b₂, htypes, hrest⟩ := on_bind_eq_ok hrest
  split at hrest
  · cases hrest
    exact arrangeByType_on hb hi htypes
  obtain ⟨kept₂, hb₂⟩ := (keeps_arrangeByType Keeping.addRoutine i).of_on htypes hb
  have hi₂ := kept₂.prepared hi
  rw [← kept₂.namesIn hi.rules]
  obtain ⟨languages, b₃, hlanguages, hrest⟩ := on_bind_eq_ok hrest
  split at hrest
  · cases hrest
    exact arrangeByLanguage_on hb₂ hi₂ hlanguages
  obtain ⟨kept₃, hb₃⟩ := (keeps_arrangeByLanguage i).of_on hlanguages hb₂
  have hi₃ := kept₃.prepared hi₂
  rw [← kept₃.namesIn hi₂.rules]
  obtain ⟨flags, b₄, hflags, hrest⟩ := on_bind_eq_ok hrest
  split at hrest
  · cases hrest
    exact arrangeByFlags_on hb₃ hi₃ hflags
  · cases hrest

end Ways

/-! ### Statements -/

lemma ruleStatements_names {rules} {sts}
    (hrules : ∀ r ∈ rules, r.OnlyRefs) (h : ruleStatements b last rules = .ok sts) :
    definedNames sts = [] ∧ calledNames sts = rules.flatMap callNames := by
  induction rules generalizing last sts with
  | nil =>
    cases h
    simp [definedNames, calledNames]
  | cons r rules ih =>
    obtain ⟨st, hst, h⟩ := bind_eq_ok.1 h
    obtain ⟨rest, hrest, h⟩ := bind_eq_ok.1 h
    cases h
    obtain ⟨defines, calls⟩ := ofRule_names (hrules r (.head _)) hst
    obtain ⟨defines', calls'⟩ := ih (fun r hr => hrules r (.tail _ hr)) hrest
    constructor
    · rw [definedNames_eq] at defines' ⊢
      rw [flatMap_append, flatMap_cons, defines, defines']
      split <;> simp [sourceComment, Statement.defines]
    · rw [calledNames_eq] at calls' ⊢
      rw [flatMap_append, flatMap_cons, calls, calls']
      split <;> simp [sourceComment, Statement.calls]

lemma routineSource_plain {sts} (h : routineSource a = .ok sts) :
    ∀ st ∈ sts, Plain st := by
  unfold routineSource at h
  split at h
  · obtain ⟨parts, -, h⟩ := bind_eq_ok.1 h
    cases h
    exact forall_mem_singleton.2 ⟨rfl, rfl⟩
  · cases h
    simp

/-- A routine in one piece is one lookup, which defines nothing more and calls what its chains call. -/
lemma wholeStatement_on (hi : b.Prepared i n ids) (hrun : (wholeStatement i).on b = (.ok st, b')) :
    nameOf st = some n ∧ st.defines = [n] ∧ st.calls = b.namesIn ids := by
  rw [wholeStatement, on_get_bind] at hrun
  obtain ⟨filters, -, hrun⟩ := on_ofExcept_bind hrun
  obtain ⟨attaches, -, hrun⟩ := on_ofExcept_bind hrun
  obtain ⟨source, hsource, hrun⟩ := on_ofExcept_bind hrun
  obtain ⟨_, b₁, -, hrun⟩ := on_bind_eq_ok hrun
  obtain ⟨rules, hrules, hrun⟩ := on_ofExcept_bind hrun
  have quiet := names_plain (routineSource_plain hsource)
  obtain ⟨defines, calls⟩ := ruleStatements_names hi.onlyRefs hrules
  have names : (b.rulesOf i).flatMap callNames = b.namesIn ids := by
    unfold rulesOf namesIn
    rw [ruleIds_rules hi.content, flatMap_map]
  rw [names] at calls
  dsimp only at hrun
  rw [hi.name] at hrun
  split at hrun
  · next h => cases h
  · next h => exact absurd (Option.some.inj h) hi.named
  · next h =>
    cases h
    cases hrun
    refine ⟨rfl, ?_, ?_⟩
    · rw [definedNames_eq] at defines
      rw [Statement.defines, definedNames_eq]
      simp [quiet.1, defines, Statement.defines, flatMap_map]
    · rw [calledNames_eq] at calls
      rw [Statement.calls, calledNames_eq]
      simp [quiet.2, calls, Statement.calls]

/-- A statement defines lookups of a name or with names that begin with it, and makes certain calls. -/
structure Writes (st : Statement) (n : String) (calls : List String) : Prop where
  defines : ∀ m ∈ st.defines, m = n ∨ ∃ x, m = n ++ "_" ++ x
  calls : ∀ m, m ∈ st.calls ↔ m ∈ calls

lemma routineStatement_writes {inFeature} (hb : b.Coherent) (hi : b.Prepared i n ids)
    (hrun : (routineStatement fuel inFeature i).on b = (.ok st, b')) : Writes st n (b.namesIn ids) := by
  induction fuel generalizing inFeature b b' i n ids st with
  | zero => cases hrun
  | succ fuel ih =>
    rw [routineStatement, on_get_bind, hi.content] at hrun
    obtain ⟨parts, b₁, harrange, hrun⟩ := on_bind_eq_ok hrun
    obtain ⟨kept, hb₁⟩ := (keeping_arrange i).of_on harrange hb
    split at hrun
    · next p ps _ =>
      obtain ⟨sts, b₂, hsts, hrun⟩ := on_bind_eq_ok hrun
      cases hrun
      have divided := arrange_on hb hi harrange
      have each : Forall₂ (fun q st => q ∈ p :: ps ∧
          ∃ x, Writes st (n ++ "_" ++ x) (b₁.namesIn (b₁.ruleIds q))) (p :: ps) sts := by
        -- A part may be split again, so its names begin with those of the part.
        refine (Keeping.on_mapM (keeps_routineStatement fuel true) hb₁ hsts).imp ?_
        rintro q st ⟨hq, s, t, before, hs, hst, -⟩
        obtain ⟨x, ids', prepared⟩ := divided.prepared q hq
        refine ⟨hq, x, ?_⟩
        rw [ruleIds_rules prepared.content, ← before.namesIn prepared.rules]
        exact ih hs (before.prepared prepared) hst
      constructor
      · intro m hm
        rw [Statement.defines, definedNames_eq] at hm
        obtain ⟨st, hst, hm⟩ := mem_flatMap.1 hm
        obtain ⟨q, -, -, x, writes⟩ := forall₂_mem_right each hst
        rcases writes.defines m hm with rfl | ⟨y, rfl⟩
        · exact .inr ⟨x, rfl⟩
        · exact .inr ⟨x ++ "_" ++ y, by simp [String.append_assoc]⟩
      · intro m
        rw [Statement.calls, calledNames_eq, divided.calls, mem_flatMap]
        constructor
        · rintro ⟨st, hst, hm⟩
          obtain ⟨q, hq, -, x, writes⟩ := forall₂_mem_right each hst
          exact ⟨q, hq, (writes.calls m).1 hm⟩
        · rintro ⟨q, hq, hm⟩
          obtain ⟨st, hst, -, x, writes⟩ := forall₂_mem_left each hq
          exact ⟨st, hst, (writes.calls m).2 hm⟩
    · rw [← kept.namesIn hi.rules]
      obtain ⟨-, defines, calls⟩ := wholeStatement_on (kept.prepared hi) hrun
      exact ⟨fun m hm => .inl (by simpa [defines] using hm), fun m => by rw [calls]⟩

end Feature
end GlyphRules
