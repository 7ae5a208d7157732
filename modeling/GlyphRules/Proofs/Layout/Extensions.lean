import GlyphRules.Proofs.Layout.Uses

/-! Lookups within extensions.

An extension has the subtables of another lookup, each with the type of that lookup. Each is read as a lookup of its
own, with the flags of the extension, and only the rules are kept. So the rules are those of the plain lookup, but
the routine never has flags or sets of marks (`lookupRoutine_extended`). -/
namespace GlyphRules.Layout

open List Step

variable {s : Setting} {l : LookupTable} {n m count count' : Nat} {label : String} {sub : Subtable} {rules : List Rule}
  {flags : Int} {markToMark : Bool} {α β : Type}

/-- The extension form of a lookup. -/
def LookupTable.extended (l : LookupTable) (type : Int) : LookupTable :=
  { l with type, subtables := l.subtables.map (.extension l.type) }

/-- Whether anchors are made for the rules of a subtable, with new names. -/
def Subtable.HasMarks (sub : Subtable) : Prop :=
  ∃ coverage bases classes marks anchors, sub = .marks coverage bases classes marks anchors

lemma subtableRules_anytime (hmarks : ¬sub.HasMarks)
    (h : (subtableRules s markToMark flags n sub).run count = .ok (rules, count')) (m) :
    (subtableRules s markToMark flags n sub).run m = .ok (rules, m) := by
  cases sub with
  | marks => exact absurd ⟨_, _, _, _, _, rfl⟩ hmarks
  | context c => exact reading_lift_eq_ok.2 ⟨(reading_lift_eq_ok.1 h).1, rfl⟩
  | _ =>
    cases h
    rfl

lemma reading_mapM_run {f : α → Reading β} {l} {bs}
    (h : Forall₂ (fun a b => ∀ m, ∃ m', (f a).run m = .ok (b, m')) l bs) (m) :
    ∃ m', (l.mapM f).run m = .ok (bs, m') := by
  induction h generalizing m with
  | nil => exact ⟨m, rfl⟩
  | cons hb _ ih =>
    obtain ⟨m₁, hb⟩ := hb m
    obtain ⟨m₂, hrest⟩ := ih m₁
    rw [mapM_cons]
    exact ⟨m₂, reading_bind_eq_ok.2 ⟨_, m₁, hb, reading_bind_eq_ok.2 ⟨_, m₂, hrest, rfl⟩⟩⟩

lemma routineName_anytime (h : (routineName s label).run count = .ok (name, count')) (m) :
    ∃ name, (routineName s label).run m = .ok (name, m + 1) := by
  unfold routineName at h ⊢
  cases hnames : s.names with
  | none =>
    rw [hnames] at h
    cases h
  | some names => exact ⟨_, rfl⟩

/-- The flags decide which sets of marks a routine has, whatever its name. -/
lemma flagged_eq_ok (h : flagged s l name = .ok routine) :
    routine.flags = .bits l.flags ∧ (l.flags = 0 → routine.markFilteringSet = none ∧ routine.markAttachmentSet = none) ∧
      ∀ type name subtables, ∃ r, flagged s { type, flags := l.flags, subtables } name = .ok r := by
  obtain ⟨marks, hmarks, h⟩ := bind_eq_ok.1 h
  obtain ⟨filter, hfilter, h⟩ := bind_eq_ok.1 h
  cases h
  refine ⟨rfl, fun hzero => ?_, fun type name subtables => ⟨_, bind_eq_ok.2 ⟨marks, hmarks, rfl⟩⟩⟩
  rw [hzero] at hmarks hfilter
  cases hmarks
  have none_kept : (l.filter.filter fun _ => Flags.landBits 0 0x10 != 0) = none := by cases l.filter <;> rfl
  rw [none_kept] at hfilter
  cases hfilter
  exact ⟨rfl, rfl⟩

lemma plainRules_parts (hcursive : label ≠ "CursiveAttachment")
    (h : (plainRules s n l label).run count = .ok (rules, count')) :
    label ≠ "MarkToLigature" ∧ ∃ parts, parts.flatten = rules ∧
      (l.subtables.mapM (subtableRules s (label == "MarkToMark") l.flags n)).run count = .ok (parts, count') := by
  unfold plainRules at h
  split at h
  · cases h
  · next hligature =>
    rw [if_neg (by simpa using hcursive)] at h
    obtain ⟨parts, m, hparts, h⟩ := reading_bind_eq_ok.1 h
    cases h
    exact ⟨by simpa using hligature, parts, rfl, hparts⟩

lemma lookupRoutine_plain (hlabel : typeLabel? s.kind l.type = some label) (hplain : label ≠ "Extension") :
    lookupRoutine s n l = plainLookup s n l label := by
  unfold lookupRoutine
  split <;> simp_all

lemma extensionRules_plain (hlabel : typeLabel? s.kind type = some label) (hplain : label ≠ "Extension") :
    extensionRules s n flags type sub = do return (← plainLookup s n { type, flags, subtables := [sub] } label).2 := by
  unfold extensionRules
  split <;> simp_all

/-- **A lookup and its extension have the same rules, and the same flags and sets of marks exactly if there are no
flags.** Anchors are left out: their names count what has been named, and cursive ones are read all at once. -/
theorem lookupRoutine_extended (hlabel : typeLabel? s.kind l.type = some label) (hplain : label ≠ "Extension")
    (hcursive : label ≠ "CursiveAttachment") (hmarks : ∀ sub ∈ l.subtables, ¬sub.HasMarks) {type : Int}
    (htype : typeLabel? s.kind type = some "Extension") {routine : Routine}
    (h : (lookupRoutine s n l).run count = .ok ((routine, rules), count')) :
    ∃ outer m, (lookupRoutine s n (l.extended type)).run count = .ok ((outer, rules), m) ∧
      ((outer.flags = routine.flags ∧ outer.markFilteringSet = routine.markFilteringSet ∧
        outer.markAttachmentSet = routine.markAttachmentSet) ↔ l.flags = 0) := by
  rw [lookupRoutine_plain hlabel hplain] at h
  obtain ⟨name, m, hname, hflagged, hrules⟩ := plainLookup_eq_ok.1 h
  obtain ⟨hligature, parts, hflat, hparts⟩ := plainRules_parts hcursive hrules
  obtain ⟨hbits, hnone, hflags⟩ := flagged_eq_ok hflagged
  have reads : Forall₂ (fun sub part => ∀ m, ∃ m', (extensionRules s n l.flags l.type sub).run m = .ok (part, m'))
      l.subtables parts := by
    refine ((forall₂_and_left ..).2 ⟨hmarks, reading_mapM_forall₂ hparts⟩).imp ?_
    rintro sub part ⟨hsub, m₁, m₂, hpart⟩ m
    obtain ⟨name, hname⟩ := routineName_anytime hname m
    obtain ⟨r, hr⟩ := hflags l.type name [sub]
    have part_read : (plainRules s n { type := l.type, flags := l.flags, subtables := [sub] } label).run (m + 1) =
        .ok (part, m + 1) := by
      rw [plainRules, if_neg (by simpa using hligature), if_neg (by simpa using hcursive)]
      simp [subtableRules_anytime hsub hpart]
    rw [extensionRules_plain hlabel hplain]
    exact ⟨m + 1, reading_bind_eq_ok.2 ⟨(r, part), m + 1, plainLookup_eq_ok.2 ⟨name, m + 1, hname, hr, part_read⟩, rfl⟩⟩
  have outer : ∃ m, (lookupRoutine s n (l.extended type)).run count = .ok (({}, rules), m) := by
    unfold lookupRoutine
    rw [show (l.extended type).type = type from rfl, htype]
    refine (reading_mapM_run ?_ count).imp fun m hread => reading_bind_eq_ok.2 ⟨parts, m, hread, by rw [hflat]; rfl⟩
    exact forall₂_map_left_iff.2 reads
  obtain ⟨m, hread⟩ := outer
  refine ⟨{}, m, hread, ?_⟩
  rw [hbits]
  exact ⟨fun h => (Flags.bits.inj h.1).symm, fun h => ⟨by rw [h], (hnone h).1.symm, (hnone h).2.symm⟩⟩

/-- A substitution that passes over marks, and the same in an extension. -/
theorem lookupRoutine_extended_sample : ∃ outer m,
    (lookupRoutine ⟨.substitution, {}, some [], 0, 1⟩ 0 ⟨7, 8, none, [.extension 1 (.single [("a", "b")])]⟩).run 0 =
      .ok ((outer, [{ body := .substitution { input := some [["a"]], replacement := some [["b"]] }
                      flags := .bits 8, address := .number 0 }]), m) ∧
      ¬(outer.flags = .bits 8 ∧ outer.markFilteringSet = none ∧ outer.markAttachmentSet = none) := by
  obtain ⟨outer, m, hread, hsame⟩ := @lookupRoutine_extended ⟨.substitution, {}, some [], 0, 1⟩
    ⟨1, 8, none, [.single [("a", "b")]]⟩ 0 0 1 "SingleSubstitution" _ rfl (by decide) (by decide)
    (by simp [Subtable.HasMarks]) 7 rfl { name := some "SingleSubstitution1", flags := .bits 8 } rfl
  exact ⟨outer, m, hread, fun h => absurd (hsame.1 h) (by decide)⟩

end GlyphRules.Layout
