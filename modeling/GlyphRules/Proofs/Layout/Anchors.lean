import GlyphRules.Proofs.Layout.Uses

/-! Marks, and what they are placed on.

A subtable has a row of anchors for each base, one for each class of marks. For every class a rule is made, with
the marks of the class and the bases that have an anchor for it. Where the bases are marks a row is read only if it
has one anchor, whatever the class (`attachmentRules_reads_iff`). -/
namespace GlyphRules.Layout

open Step List

section Placed
variable {α : Type} {names : List String} {records : List α} {anchor : α → Option (Number × Number)}
  {f : α → Except Fault (Option (Number × Number))}

/-- The records that have an anchor, under the names of their glyphs. -/
def placed (names : List String) (records : List α) (anchor : α → Option (Number × Number)) : List (String × Point) :=
  (names.zip records).filterMap fun x => (anchor x.2).map fun p => (x.1, fixedPoint p)

lemma keys_placed : ((placed names records anchor).map (·.1)).Sublist names := by
  unfold placed
  induction names generalizing records with
  | nil => simp
  | cons n names ih =>
    cases records with
    | nil => simp
    | cons r records =>
      rw [zip_cons_cons, filterMap_cons]
      cases anchor r with
      | none => exact ih.cons n
      | some p => exact ih.cons_cons n

lemma anchorsOf_eq (hnames : names.Nodup) (hlength : names.length = records.length)
    (h : ∀ r ∈ records, f r = .ok (anchor r)) : anchorsOf names records f = .ok (placed names records anchor) := by
  refine bind_eq_ok.2 ⟨(names.zip records).map fun x => ((anchor x.2).map fun p => (x.1, fixedPoint p)).toList,
    mapM_iff_forall₂.2 (forall₂_iff_get.2 ⟨by simp [hlength], fun i hi _ => ?_⟩), ?_⟩
  · have hr : i < records.length := by simpa using hi
    cases ha : anchor records[i] <;> simp [h, ha, nameAt, hlength, hr, pure, Except.pure]
  · rw [← flatMap_def, ← filterMap_eq_flatMap_toList]
    exact congrArg Except.ok (Dict.merge_of_nodup (hnames.sublist keys_placed))

lemma placed_eq_nil (hlength : names.length = records.length) :
    placed names records anchor = [] ↔ ∀ r ∈ records, anchor r = none := by
  conv_rhs => rw [← map_snd_zip hlength.ge]
  simpa [placed] using forall_comm

end Placed

variable {s : Setting} {flags : Int} {number : Nat} {markToMark : Bool} {coverage bases : List String} {classes : Nat}
  {marks : List (Nat × Number × Number)} {anchors : List Anchors} {n : Nat}

/-- What a rule attaches, and what it attaches it to. -/
def attached (r : Rule) : Option (List (String × Point) × List (String × Point)) :=
  match r.body with
  | .attachment a => some (a.marks, a.bases)
  | _ => none

lemma attachmentRules_attached {P : Nat → List (String × Point) × List (String × Point)} :
    (∃ rules m, (attachmentRules s flags number markToMark coverage bases classes marks anchors).run n = .ok (rules, m) ∧
      rules.map attached = (List.range classes).map fun c => some (P c)) ↔
    ∀ c < classes, anchorsOf coverage marks (markAnchor c) = .ok (P c).1 ∧
      anchorsOf bases anchors (baseAnchor markToMark c) = .ok (P c).2 := by
  unfold attachmentRules
  simp only [← mem_range]
  generalize List.range classes = l
  induction l generalizing n with
  | nil => exact ⟨fun _ => forall_mem_nil _, fun _ => ⟨[], n, rfl, rfl⟩⟩
  | cons c l ih =>
    rw [forall_mem_cons, ← ih]
    simp only [mapM_cons, reading_bind_eq_ok, reading_lift_eq_ok]
    constructor
    · rintro ⟨_, m, ⟨_, _, ⟨_, _, hname, ms, _, ⟨hms, rfl⟩, bs, _, ⟨hbs, rfl⟩, hr⟩, rest, _, hrest, h⟩, hP⟩
      cases hname
      cases hr
      cases h
      obtain ⟨hfirst, hall⟩ := cons_eq_cons.1 hP
      have hfirst : (ms, bs) = P c := Option.some.inj hfirst
      rw [← hfirst]
      exact ⟨⟨hms, hbs⟩, rest, m, hrest, hall⟩
    · rintro ⟨⟨hms, hbs⟩, rest, m, hrest, hall⟩
      exact ⟨_, m, ⟨_, _, ⟨_, _, rfl, _, _, ⟨hms, rfl⟩, _, _, ⟨hbs, rfl⟩, rfl⟩, rest, m, hrest, rfl⟩,
        cons_eq_cons.2 ⟨rfl, hall⟩⟩

lemma baseAnchor_of_length {c} (h : a.length ≠ 1) : baseAnchor true c a = .ok none := by
  rcases a with _ | ⟨x, _ | ⟨y, a⟩⟩
  · rfl
  · exact absurd rfl h
  · cases x <;> rfl

/-- **The attachments of a class are those of the subtable**, marks on marks exactly if there is one class and no
anchor is missing, or if none is given. -/
theorem attachmentRules_reads_iff (hcoverage : coverage.Nodup) (hmarks : coverage.length = marks.length)
    (hbases : bases.Nodup) (hanchors : bases.length = anchors.length) (hrows : ∀ a ∈ anchors, a.length = classes) :
    (∃ rules m, (attachmentRules s flags number markToMark coverage bases classes marks anchors).run n = .ok (rules, m) ∧
      rules.map attached = (List.range classes).map fun c => some
        (placed coverage marks fun m => if m.1 == c then some m.2 else none, placed bases anchors (·[c]?.join))) ↔
    markToMark = false ∨ if classes = 1 then [none] ∉ anchors else ∀ a ∈ anchors, ∀ p ∈ a, p = none := by
  have own (c : Nat) := anchorsOf_eq (f := markAnchor c) hcoverage hmarks fun _ _ => rfl
  rw [attachmentRules_attached]
  simp only [own, true_and]
  cases markToMark with
  | false => exact ⟨fun _ => .inl rfl, fun _ c _ => anchorsOf_eq hbases hanchors fun _ _ => rfl⟩
  | true =>
    rw [or_iff_right Bool.noConfusion]
    by_cases hone : classes = 1
    · subst hone
      constructor
      · intro h hnone
        obtain ⟨found, hfound, -⟩ := bind_eq_ok.1 (h 0 Nat.one_pos)
        obtain ⟨i, hi⟩ := mem_iff_getElem?.1 hnone
        obtain ⟨_, -, hfail⟩ := except_mem_mapM hfound (mem_zipIdx_iff_getElem?.2 (show _ = some ([none], i).1 from hi))
        cases hfail
      · intro h c hc
        obtain rfl := Nat.lt_one_iff.1 hc
        refine anchorsOf_eq hbases hanchors fun a ha => ?_
        obtain ⟨p, rfl⟩ := length_eq_one_iff.1 (hrows a ha)
        cases p with
        | none => exact absurd ha h
        | some p => rfl
    · rw [if_neg hone]
      have unread (c : Nat) : anchorsOf bases anchors (baseAnchor true c) = .ok (placed bases anchors fun _ => none) :=
        anchorsOf_eq hbases hanchors fun a ha => baseAnchor_of_length (hrows a ha ▸ hone)
      simp only [unread, (placed_eq_nil hanchors).2 fun _ _ => rfl, Except.ok.injEq, eq_comm (a := []),
        placed_eq_nil hanchors]
      refine ⟨fun h a ha p hp => ?_, fun h c _ a ha => ?_⟩
      · obtain ⟨c, hc, rfl⟩ := getElem_of_mem hp
        simpa [hc] using h c (hrows a ha ▸ hc) a ha
      · cases hp : a[c]? with
        | none => rfl
        | some p => exact h a ha p (mem_of_getElem? hp)

section Sample

def accents : Setting := { kind := .positioning, tables := { glyphs := [] }, names := none, first := 0, count := 0 }

theorem attachmentRules_reads_single :
    ∃ rules m, (attachmentRules accents 0 0 true ["acute"] ["dot", "ring"] 1 [(0, 3, 5)]
        [[some (1, 2)], [some (4, 7)]]).run 0 = .ok (rules, m) ∧
      rules.map attached =
        [some ([("acute", .int 3, .int 5)], [("dot", .int 1, .int 2), ("ring", .int 4, .int 7)])] :=
  (attachmentRules_reads_iff (by decide) rfl (by decide) rfl (by decide)).2 (.inr (by simp))

/-- **With two classes of marks no mark is placed on another.** -/
theorem attachmentRules_loses_bases :
    ∃ rules m, (attachmentRules accents 0 0 true ["acute", "grave"] ["dot"] 2 [(0, 3, 5), (1, 3, 6)]
        [[some (1, 2), some (4, 7)]]).run 0 = .ok (rules, m) ∧
      rules.map attached = [some ([("acute", .int 3, .int 5)], []), some ([("grave", .int 3, .int 6)], [])] :=
  ⟨_, _, rfl, rfl⟩

end Sample
end GlyphRules.Layout
