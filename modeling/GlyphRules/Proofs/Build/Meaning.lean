import GlyphRules.Proofs.Build.Stored

/-! What built lookups do.

`Contents.effect` is what a lookup does where the rest of the glyphs begins: one for single glyphs
looks at the next, one for ligatures takes the longest it has, and one of rules in context takes the
first that fits and calls other lookups at its positions. What is built from rules of one shape has
the effect of their table (`single_effect`, `multiple_effect`, `ligature_effect`), or replaces their
positions (`chain_effect`). What a rule in context calls is built along with it, so builders are
added, and none is changed (`mapM_grows`). -/
namespace GlyphRules.Build

open Step Shaping List Rewrite Dict

variable {α : Type} {s t : Workshop}

/-! ### What lookups do -/

/-- The glyph that a called lookup puts for one; rules in context are built to call no others than these. -/
def Contents.replace : Contents → String → String
  | .single m, g => (Dict.get? m g).getD g
  | _, g => g

/-- What is called at each position, one lookup after the other. -/
def replaceEach : List (List Contents) → List String → List String
  | called :: rest, g :: glyphs => called.foldl (fun g c => c.replace g) g :: replaceEach rest glyphs
  | _, glyphs => glyphs

def ChainRule.reading (r : ChainRule) : Rewrite := ⟨r.before, r.input, r.after, []⟩

def ChainRule.effect (called : BuilderId → Contents) (rules : List ChainRule) : Effect := fun done rest =>
  (rules.find? (·.reading.fitsBetween done rest)).map fun r =>
    (replaceEach (r.calls.map (·.map called)) (rest.take r.input.length), r.input.length)

/-- What a lookup does, given those that can be called. -/
def Contents.effect (called : BuilderId → Contents) : Contents → Effect
  | .single m => fun _ rest => rest.head?.bind fun g => (Dict.get? m g).map fun x => ([x], 1)
  | .multiple m => fun _ rest => rest.head?.bind fun g => (Dict.get? m g).map fun written => (written, 1)
  | .ligature l => lookUp fun q => (l.find? (·.1 == q)).map fun x => [x.2]
  | .chain _ rules => ChainRule.effect called rules
  | _ => fun _ _ => none

def Workshop.contents (w : Workshop) (b : BuilderId) : Contents := (w.builders.getD b default).contents

/-- What the lookup of a builder does. -/
def Workshop.effect (w : Workshop) (b : BuilderId) : Effect := (w.contents b).effect w.contents

/-! ### Tables -/

lemma lookUp_one {table} (h : ∀ q, q.length ≠ 1 → table q = none)
    (done rest) :
    lookUp table done rest = rest.head?.bind fun g => (table [g]).map fun written => (written, 1) := by
  have hlonger k (hk : 1 < k) (hk' : k ≤ rest.length) : table (rest.take k) = none :=
    h _ (by rw [length_take]; omega)
  cases rest with
  | nil => rfl
  | cons g tail =>
    show longest table (g :: tail) (g :: tail).length = (table [g]).map fun written => (written, 1)
    cases hg : table [g] with
    | none =>
      refine longest_eq_none.2 fun k hk hk' => ?_
      rcases Nat.lt_or_eq_of_le (Nat.succ_le_of_lt hk) with hk | rfl
      · exact hlonger k hk hk'
      · exact hg
    | some written => exact longest_eq_some.2 ⟨Nat.one_pos, Nat.le_add_left 1 _, hg, hlonger⟩

section Tables
variable {called : BuilderId → Contents} {ws : List Rewrite}

/-- A dictionary of glyphs does what the table of the rules does that it was merged from. -/
lemma merged_effect {f : α → List String} {glyphs}
    (h : ∀ w ∈ ws, w.entries = (glyphs w).map fun x => ([x.1], f x.2)) :
    (fun _ rest => rest.head?.bind fun g => (get? (Dict.merge [] (ws.flatMap glyphs)) g).map fun x => (f x, 1)) =
      lookUp (table ws) := by
  have hentries : ws.flatMap entries = (ws.flatMap glyphs).map fun x => ([x.1], f x.2) := by
    rw [map_flatMap]
    exact flatMap_congr h
  have hone q (hq : q.length ≠ 1) : table ws q = none := by
    refine Option.eq_none_iff_forall_ne_some.2 fun v hv => hq ?_
    rw [table, hentries] at hv
    obtain ⟨x, -, heq⟩ := mem_map.1 (mem_of_last? hv)
    rw [← (Prod.mk.inj heq).1]
    rfl
  have hfound g : table ws [g] = (get? (Dict.merge [] (ws.flatMap glyphs)) g).map f := by
    rw [table, hentries, last?_map singleton_injective, get?_merge_nil]
  funext done rest
  rw [lookUp_one hone]
  refine congrArg (rest.head?.bind ·) (funext fun g => ?_)
  rw [hfound, Option.map_map]
  rfl

def glyphPairs (w : Rewrite) : List (String × String) := (w.input.headD []).zip (w.output.headD [])

lemma single_effect (h : ∀ w ∈ ws, w.input.length = 1 ∧ w.output.length = 1) :
    (Contents.single (Dict.merge [] (ws.flatMap glyphPairs))).effect called = lookUp (table ws) := by
  refine merged_effect fun w hw => ?_
  obtain ⟨i, hi⟩ := length_eq_one_iff.1 (h w hw).1
  obtain ⟨o, ho⟩ := length_eq_one_iff.1 (h w hw).2
  unfold entries glyphPairs
  rw [hi, ho]
  rfl

def glyphSequence (w : Rewrite) : List (String × List String) :=
  [((w.input.headD []).headD "", w.output.map (·.headD ""))]

lemma multiple_effect (h : ∀ w ∈ ws, w.input.length = 1 ∧ 2 ≤ w.output.length) :
    (Contents.multiple (Dict.merge [] (ws.flatMap glyphSequence))).effect called = lookUp (table ws) := by
  refine merged_effect fun w hw => ?_
  obtain ⟨i, hi⟩ := length_eq_one_iff.1 (h w hw).1
  obtain ⟨o, o', rest, ho⟩ := exists_cons_cons (h w hw).2
  unfold entries glyphSequence
  rw [hi, ho]
  rfl

def ligatureSequences (w : Rewrite) : List (List String × String) :=
  (product w.input).map fun q => (q, (w.output.headD []).headD "")

lemma ligature_effect (h : ∀ w ∈ ws, 2 ≤ w.input.length ∧ w.output.length = 1) :
    (Contents.ligature (Dict.merge [] (ws.flatMap ligatureSequences))).effect called = lookUp (table ws) := by
  have hentries : ws.flatMap entries = (ws.flatMap ligatureSequences).map fun x => (id x.1, [x.2]) := by
    rw [map_flatMap]
    refine flatMap_congr fun w hw => ?_
    obtain ⟨o, ho⟩ := length_eq_one_iff.1 (h w hw).2
    rw [entries_ligature (h w hw).1]
    rw [ligatureSequences, ho, map_map]
    rfl
  refine congrArg lookUp (funext fun q => ?_)
  have hlast := last?_map Function.injective_id (fun g => [g]) (ws.flatMap ligatureSequences) q
  rw [table, hentries]
  refine Eq.trans ?_ hlast.symm
  rw [← get?_merge_nil, get?, Option.map_map]
  rfl

end Tables

/-! ### Builders added -/

/-- Builders are added, and none is changed. -/
structure Grows (s t : Workshop) : Prop where
  size : s.builders.size ≤ t.builders.size
  same : ∀ b < s.builders.size, t.contents b = s.contents b

lemma Grows.refl (s) : Grows s s := ⟨le_rfl, fun _ _ => rfl⟩

lemma Grows.trans (h : Grows s t) (h' : Grows t u) : Grows s u :=
  ⟨h.size.trans h'.size, fun b hb => (h'.same b (hb.trans_le h.size)).trans (h.same b hb)⟩

def Workshop.push (s : Workshop) (b : Builder) : Workshop := { s with builders := s.builders.push b }

lemma Workshop.size_push (s : Workshop) (b) : (s.push b).builders.size = s.builders.size + 1 :=
  Array.size_push b

lemma Workshop.contents_push (s : Workshop) (b) : (s.push b).contents s.builders.size = b.contents := by
  simp [contents, push]

lemma Workshop.grows_push (s) (b) : Grows s (s.push b) := by
  refine ⟨by rw [s.size_push b]; exact Nat.le_succ _, fun i hi => ?_⟩
  simp [contents, push, Array.getElem?_push, Nat.ne_of_lt hi]

/-- Steps that all succeed and add builders, with what holds of each result and goes on to hold. -/
lemma mapM_grows {f : α → Work β} (Made : α → β → Workshop → Prop)
    (hkept : ∀ {a b s t}, Grows s t → Made a b s → Made a b t) {l}
    (h : ∀ a ∈ l, ∀ s, ∃ b t, (f a).on s = (.ok b, t) ∧ Grows s t ∧ Made a b t) (s) :
    ∃ bs t, (l.mapM f).on s = (.ok bs, t) ∧ Grows s t ∧ Forall₂ (fun a b => Made a b t) l bs := by
  induction l generalizing s with
  | nil => exact ⟨[], s, rfl, .refl s, .nil⟩
  | cons a l ih =>
    obtain ⟨b, u, hb, hsu, hmade⟩ := h a (.head _) s
    obtain ⟨bs, t, hbs, hut, hall⟩ := ih (fun a ha => h a (.tail _ ha)) u
    refine ⟨b :: bs, t, ?_, hsu.trans hut, .cons (hkept hut hmade) hall⟩
    rw [mapM_cons, on_bind_ok hb, on_bind_ok hbs, on_pure]

/-! ### Rules in context -/

structure Holds (t : Workshop) (ids : List BuilderId) (cs : List Contents) : Prop where
  built : ∀ b ∈ ids, b < t.builders.size
  contents : ids.map t.contents = cs

lemma Holds.grow (hg : Grows s t) (h : Holds s ids cs) : Holds t ids cs :=
  ⟨fun b hb => (h.built b hb).trans_le hg.size, (map_congr_left fun b hb => hg.same b (h.built b hb)).trans h.contents⟩

abbrev CallsPairs (t : Workshop) (slots : List (Slot × Slot)) (calls : List (List BuilderId)) : Prop :=
  Forall₂ (fun x ids => Holds t ids [.single (Dict.merge [] (x.1.zip x.2))]) slots calls

/-- A rule of a lookup that reads what a rewriting reads and replaces each position on its own. -/
structure Realises (w : Rewrite) (r : ChainRule) (t : Workshop) : Prop where
  before : r.before = w.before
  input : r.input = w.input
  after : r.after = w.after
  calls : CallsPairs t (w.input.zip w.output) r.calls

lemma Realises.grow {r} (hg : Grows s t) (h : Realises w r s) : Realises w r t :=
  { h with calls := h.calls.imp fun _ _ => .grow hg }

lemma replaceEach_calls {input output} {calls}
    (h : CallsPairs t (input.zip output) calls) (q) :
    replaceEach (calls.map (·.map t.contents)) q = inPlace input output q := by
  induction input generalizing output calls q with
  | nil =>
    cases h
    rfl
  | cons i input ih =>
    cases output with
    | nil =>
      cases h
      rfl
    | cons o output =>
      cases h with
      | cons hcall hcalls =>
        cases q with
        | nil => rfl
        | cons g q =>
          rw [map_cons, hcall.contents, replaceEach, ih hcalls]
          refine congrArg (· :: _) ?_
          show (Dict.get? (Dict.merge [] (i.zip o)) g).getD g = _
          rw [get?_merge_nil]

lemma chain_effect {rules} (h : Forall₂ (fun w r => Realises w r t) ws rules) :
    ChainRule.effect t.contents rules = positions ws := by
  funext done rest
  unfold ChainRule.effect positions
  induction h with
  | nil => rfl
  | @cons w r ws rules hr _ ih =>
    have hreads : r.reading.fitsBetween done rest = w.fitsBetween done rest := by
      unfold ChainRule.reading fitsBetween
      rw [hr.before, hr.input, hr.after]
    rw [List.find?_cons, List.find?_cons, hreads]
    cases w.fitsBetween done rest with
    | true =>
      show some (_, _) = some (_, _)
      rw [hr.input, replaceEach_calls hr.calls]
    | false => exact ih

/-! ### Building -/

lemma asSubstitution_on {sub} (h : r.body = .substitution sub) (s) :
    (asSubstitution r).on s = (.ok sub, s) := by
  rw [asSubstitution, h]
  rfl

lemma needed_on (h : x = some a) (s) : (needed x).on s = (.ok a, s) := by
  rw [h]
  rfl

lemma firstOf_on (h : l ≠ []) (a : α) (s) : (firstOf l).on s = (.ok (l.headD a), s) := by
  obtain ⟨b, l, rfl⟩ := exists_cons_of_ne_nil h
  rfl

lemma firstOf_mapM_on {slots : List Slot} (h : ∀ slot ∈ slots, slot ≠ []) (s) :
    (slots.mapM firstOf).on s = (.ok (slots.map (·.headD "")), s) :=
  on_mapM_pure fun slot hslot => firstOf_on (h slot hslot) "" s

/-- Every position of a rule in context gets a builder for the pairs of its slots. -/
lemma positions_on (slots) (s) : ∃ calls t, (slots.mapM fun (x : Slot × Slot) => do
      let contents ← singleContents [{ body := .substitution { input := some [x.1], replacement := some [x.2] } }]
      return [← Work.addBuilder { contents }]).on s = (.ok calls, t) ∧ Grows s t ∧ CallsPairs t slots calls := by
  refine mapM_grows (fun (x : Slot × Slot) ids t => Holds t ids [.single (Dict.merge [] (x.1.zip x.2))]) Holds.grow
    (fun x _ s => ?_) s
  refine ⟨[s.builders.size], s.push { contents := .single (Dict.merge [] (x.1.zip x.2)) }, rfl, s.grows_push _, ?_, ?_⟩
  · intro b hb
    rw [mem_singleton.1 hb, s.size_push]
    exact Nat.lt_succ_self _
  · rw [map_singleton, s.contents_push]

lemma headD_ne_nil {slots : List Slot} (hne : slots ≠ []) (h : ∀ s ∈ slots, s ≠ []) : slots.headD [] ≠ [] := by
  obtain ⟨s, rest, rfl⟩ := exists_cons_of_ne_nil hne
  exact h s (.head _)

section Building
variable {font : Font} {rules : List Rule} (hrules : ∀ r ∈ rules, IsRewriting font r)
include hrules

lemma singleContents_on (s) : (singleContents rules).on s =
    (.ok (.single (Dict.merge [] ((rules.map ofRule).flatMap glyphPairs))), s) := by
  rw [singleContents, on_bind_ok (on_foldlM_pure (fun m r hr => ?_) []),
    on_pure, merge_flatMap, foldl_map]
  obtain ⟨sub, hsub, hi, ho, -⟩ := (hrules r hr).sides
  obtain ⟨hinput, houtput⟩ := (hrules r hr).shape.ne_nil
  rw [on_bind_ok (asSubstitution_on hsub s), on_bind_ok (needed_on hi s), on_bind_ok (firstOf_on hinput [] s),
    on_bind_ok (needed_on ho s), on_bind_ok (firstOf_on houtput [] s)]
  rfl

lemma multipleContents_on (s) : (multipleContents rules).on s =
    (.ok (.multiple (Dict.merge [] ((rules.map ofRule).flatMap glyphSequence))), s) := by
  rw [multipleContents, on_bind_ok (on_foldlM_pure
    (fun m r hr => ?_) []), on_pure, merge_flatMap, foldl_map]
  obtain ⟨sub, hsub, hi, ho, -⟩ := (hrules r hr).sides
  have hfirst := headD_ne_nil (hrules r hr).shape.ne_nil.1 fun slot hslot => ((hrules r hr).input slot hslot).1
  rw [on_bind_ok (asSubstitution_on hsub s), on_bind_ok (needed_on ho s),
    on_bind_ok (firstOf_mapM_on (fun slot hslot => ((hrules r hr).output slot hslot).1) s), on_bind_ok (needed_on hi s),
    on_bind_ok (firstOf_on (hrules r hr).shape.ne_nil.1 [] s), on_bind_ok (firstOf_on hfirst "" s)]
  rfl

lemma ligatureContents_on (s) : (ligatureContents rules).on s =
    (.ok (.ligature (Dict.merge [] ((rules.map ofRule).flatMap ligatureSequences))), s) := by
  rw [ligatureContents, on_bind_ok (on_foldlM_pure (fun l r hr => ?_) []), on_pure, merge_flatMap, foldl_map]
  obtain ⟨sub, hsub, hi, ho, -⟩ := (hrules r hr).sides
  have hfirst := headD_ne_nil (hrules r hr).shape.ne_nil.2 fun slot hslot => ((hrules r hr).output slot hslot).1
  rw [ligatureSequences, on_bind_ok (asSubstitution_on hsub s), on_bind_ok (needed_on hi s), Dict.merge, foldl_map]
  refine on_foldlM_pure (fun l q _ => ?_) l
  rw [on_bind_ok (needed_on ho s), on_bind_ok (firstOf_on (hrules r hr).shape.ne_nil.2 [] s),
    on_bind_ok (firstOf_on hfirst "" s)]
  rfl

lemma subChainRules_on (s) : ∃ crs t, (rules.mapM subChainRule).on s = (.ok crs, t) ∧ Grows s t ∧
    Forall₂ (fun r cr => Realises (ofRule r) cr t) rules crs := by
  refine mapM_grows (fun r cr t => Realises (ofRule r) cr t) (fun hg h => h.grow hg) (fun r hr s => ?_) s
  obtain ⟨sub, hsub, hi, ho, hb, ha, -⟩ := (hrules r hr).sides
  obtain ⟨o, output, houtput⟩ := exists_cons_of_ne_nil (hrules r hr).shape.ne_nil.2
  obtain ⟨calls, t, hcalls, hgrows, hpairs⟩ := positions_on ((ofRule r).input.zip (ofRule r).output) s
  refine ⟨⟨sub.before, (ofRule r).input, sub.after, calls⟩, t, ?_, hgrows, ⟨hb, rfl, ha, hpairs⟩⟩
  obtain ⟨input, replacement, before, after, _, _, _⟩ := sub
  obtain rfl := hi
  obtain rfl := ho
  unfold subChainRule
  simp only [hsub, houtput, if_true]
  rw [on_bind_ok (asSubstitution_on hsub s), on_bind_ok (needed_on rfl s)]
  exact (on_bind_ok hcalls _).trans rfl

end Building

end GlyphRules.Build
