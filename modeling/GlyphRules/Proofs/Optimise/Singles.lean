import Mathlib.Data.List.SplitBy
import GlyphRules.Proofs.Build.Stored
import GlyphRules.Proofs.Optimise.Fusion

/-! Single substitutions merged.

The rule merged from adjacent single substitutions under one context follows a glyph through the
whole run of them (`Rewrite.followed`), while a routine stops at the first rule that has something
for it (`Rewrite.first`). Where the two say the same of every glyph that the rules read, the run is
`Faithful`; a routine of faithful runs shapes as before. -/
namespace GlyphRules

open List Optimise Book Dict

variable {d : List (String × String)} {v w : Rewrite} {run ws : List Rewrite} {g : String} {b : Book} {id last : RuleId}

/-! ### Mappings composed -/

namespace Dict
variable {α : Type}

lemma get?_filter (d : List (String × α)) (p : String → Bool) (k) :
    get? (d.filter fun x => p x.1) k = if p k then get? d k else none := by
  rw [get?, List.find?_filter]
  split
  · next hk =>
    congr 2
    funext x
    by_cases hx : x.1 = k
    · simp [hx, hk]
    · simp [hx]
  · next hk =>
    rw [List.find?_eq_none.2, Option.map_none]
    intro x _ hx
    simp only [beq_iff_eq, decide_eq_true_eq] at hx
    exact hk (hx.2 ▸ hx.1)

end Dict

namespace Optimise
variable {first second : List (String × String)}

lemma mapping_nodup (input output) : ((mapping input output).map (·.1)).Nodup :=
  nodup_merge (d := []) nodup_nil _

lemma get?_mapping (input output) (g) :
    get? (mapping input output) g = last? (input.zip output) g := get?_merge_nil _ g

lemma mem_mapping {x} (h : x ∈ mapping input output) :
    x.1 ∈ input ∧ x.2 ∈ output := by
  rw [mem_iff_get? (mapping_nodup input output), get?_mapping] at h
  exact of_mem_zip (mem_of_last? h)

/-- The first mapping is followed by the second, and the second stands alone where the first has nothing. -/
lemma get?_compose (first second) (g) : get? (compose first second) g =
      ((get? first g).map fun x => (get? second x).getD x).or (get? second g) := by
  let through := first.map fun x => (x.1, (get? second x.2).getD x.2)
  have hthrough : get? through g = (get? first g).map fun x => (get? second x).getD x := by
    rw [get?, List.find?_map, Option.map_map, get?, Option.map_map]
    rfl
  show get? (through ++ second.filter fun x => !has through x.1) g = _
  rw [get?_append, get?_filter second (fun k => !has through k) g, has_eq_isSome, hthrough]
  cases get? first g with
  | none => rfl
  | some x => rfl

lemma compose_nodup (h : (first.map (·.1)).Nodup)
    (h' : (second.map (·.1)).Nodup) : ((compose first second).map (·.1)).Nodup := by
  let through := first.map fun x => (x.1, (get? second x.2).getD x.2)
  have hkeys : through.map (·.1) = first.map (·.1) := by rw [map_map]; rfl
  show ((through ++ second.filter fun x => !has through x.1).map (·.1)).Nodup
  rw [map_append, nodup_append']
  refine ⟨hkeys ▸ h, h'.sublist (filter_sublist.map _), fun k hk hk' => ?_⟩
  obtain ⟨x, hx, rfl⟩ := mem_map.1 hk'
  have hnew := (mem_filter.1 hx).2
  rw [has_eq_isSome, mem_keys_iff.1 hk] at hnew
  cases hnew

/-- What a composed mapping reads and writes is read and written by one of the two. -/
lemma forall_compose {p q : String → Prop} (h : ∀ x ∈ first, p x.1 ∧ q x.2) (h' : ∀ x ∈ second, p x.1 ∧ q x.2) :
    ∀ x ∈ compose first second, p x.1 ∧ q x.2 := by
  intro x hx
  rcases mem_append.1 hx with hx | hx
  · obtain ⟨y, hy, rfl⟩ := mem_map.1 hx
    refine ⟨(h y hy).1, ?_⟩
    cases hfound : get? second y.2 with
    | none => simpa [hfound] using (h y hy).2
    | some z =>
      obtain ⟨w, hw, rfl⟩ := Option.map_eq_some_iff.1 hfound
      simpa [hfound] using (h' w (mem_of_find?_eq_some hw)).2
  · exact h' x (mem_of_mem_filter hx)

lemma compose_ne_nil (h : first ≠ []) (second) : compose first second ≠ [] := by
  obtain ⟨x, first, rfl⟩ := exists_cons_of_ne_nil h
  exact cons_ne_nil _ _

lemma mapping_ne_nil {input output : Slot} (h : input ≠ []) (h' : output ≠ []) : mapping input output ≠ [] := by
  obtain ⟨i, input, rfl⟩ := exists_cons_of_ne_nil h
  obtain ⟨o, output, rfl⟩ := exists_cons_of_ne_nil h'
  have hfound : (last? ((i :: input).zip (o :: output)) i).isSome = true :=
    last?_isSome (x := (i, o)) (.head _)
  rw [← get?_mapping] at hfound
  intro hnil
  rw [hnil] at hfound
  cases hfound

end Optimise

namespace Shaping
namespace Rewrite

open Optimise

/-! ### Runs of single substitutions -/

/-- One slot for one slot. -/
def isSingle (w : Rewrite) : Bool := w.input.length == 1 && w.output.length == 1

def source (w : Rewrite) : Slot := w.input.headD []

def target (w : Rewrite) : Slot := w.output.headD []

/-- What the optimiser takes the rule to map, glyph by glyph. -/
def pairs (w : Rewrite) : List (String × String) := mapping w.source w.target

/-- A rule of a mapping, under the contexts of another. -/
def ofPairs (w : Rewrite) (d : List (String × String)) : Rewrite :=
  { w with input := [d.map (·.1)], output := [d.map (·.2)] }

/-- Whether the second rule can be merged into the first. -/
def joins (v w : Rewrite) : Bool := v.isSingle && w.isSingle && v.before == w.before && v.after == w.after

def join (v w : Rewrite) : Rewrite := v.ofPairs (compose v.pairs w.pairs)

/-- The rules of a run as one rule. -/
def mergeRun : List Rewrite → Rewrite
  | [] => ⟨[], [], [], []⟩
  | w :: run => run.foldl join w

def merged (ws : List Rewrite) : List Rewrite := (ws.splitBy joins).map mergeRun

/-- What a rule puts for a glyph that it reads. -/
def puts (w : Rewrite) (g : String) : Option String :=
  if w.source.contains g then some (counterpart w.source w.target g) else none

/-- What the first rule that reads a glyph puts for it. -/
def first (run : List Rewrite) (g : String) : Option String := run.findSome? (·.puts g)

/-- What is known of a glyph, followed through one more rule. -/
def follow (g : String) (found : Option String) (w : Rewrite) : Option String :=
  (found.map fun x => (Dict.get? w.pairs x).getD x).or (Dict.get? w.pairs g)

/-- What a glyph becomes when it is followed through all rules. -/
def followed (run : List Rewrite) (g : String) : Option String := run.foldl (follow g) none

/-- Every glyph that the rules read becomes what the first of them puts for it. A rule by itself is left alone. -/
def Faithful (run : List Rewrite) : Prop :=
  run.length = 1 ∨ ∀ w ∈ run, ∀ g ∈ w.source, followed run g = first run g
deriving Decidable

def Uniform (before after : List Slot) (run : List Rewrite) : Prop :=
  ∀ w ∈ run, w.isSingle = true ∧ w.before = before ∧ w.after = after

lemma joins_iff : joins v w ↔ (v.isSingle ∧ w.isSingle) ∧ v.before = w.before ∧ v.after = w.after := by
  simp [joins, and_assoc]

lemma uniform_of_isChain (hv : v.isSingle) (h : (v :: run).IsChain fun x y => joins x y) :
    Uniform v.before v.after (v :: run) := by
  induction run generalizing v with
  | nil => exact forall_mem_singleton.2 ⟨hv, rfl, rfl⟩
  | cons w run ih =>
    obtain ⟨hjoins, hrest⟩ := isChain_cons_cons.1 h
    obtain ⟨⟨-, hw⟩, hbefore, hafter⟩ := joins_iff.1 hjoins
    refine forall_mem_cons.2 ⟨⟨hv, rfl, rfl⟩, ?_⟩
    rw [hbefore, hafter]
    exact ih hw hrest

/-! ### The merged rule -/

lemma pairs_nodup (w : Rewrite) : (w.pairs.map (·.1)).Nodup := mapping_nodup _ _

lemma pairs_join (v w) : (join v w).pairs = compose v.pairs w.pairs := by
  -- A mapping whose glyphs are distinct is read back from its two sides.
  show mapping ((compose ..).map (·.1)) ((compose ..).map (·.2)) = _
  rw [mapping, zip_map', map_id'']
  · exact merge_of_nodup (compose_nodup v.pairs_nodup w.pairs_nodup)
  · exact fun _ => rfl

lemma get?_pairs_foldl_join (run : List Rewrite) (v) (g) :
    get? (run.foldl join v).pairs g = run.foldl (follow g) (get? v.pairs g) := by
  induction run generalizing v with
  | nil => rfl
  | cons w run ih => rw [foldl_cons, ih, pairs_join, get?_compose]; rfl

/-- Merged rules are a mapping under the context of the first. -/
lemma foldl_join_eq (run : List Rewrite) (hu : u = v.ofPairs u.pairs) :
    run.foldl join u = v.ofPairs (run.foldl join u).pairs := by
  induction run generalizing u with
  | nil => exact hu
  | cons w run ih =>
    refine ih ?_
    rw [pairs_join, hu]
    rfl

lemma counterpart_eq (hg : g ∈ i) (hlength : i.length = o.length) :
    counterpart i o g = o.getD (i.idxOf g) "" := by
  unfold counterpart
  split
  · next x =>
    obtain ⟨y, rfl⟩ := length_eq_one_iff.1 hlength
    obtain rfl := mem_singleton.1 hg
    rw [idxOf_cons_self]
    rfl
  · rfl

lemma get?_eq_getD (hg : g ∈ d.map (·.1)) : get? d g = some ((d.map (·.2)).getD ((d.map (·.1)).idxOf g) "") := by
  induction d with
  | nil => cases hg
  | cons x d ih =>
    rw [map_cons, map_cons]
    by_cases hx : x.1 = g
    · rw [hx, idxOf_cons_self, get?, List.find?_cons_of_pos (by simpa using hx)]
      rfl
    · have hmem : g ∈ d.map (·.1) := (mem_cons.1 hg).resolve_left fun heq => hx heq.symm
      rw [idxOf_cons_ne _ hx, getD_cons_succ, ← ih hmem, get?, get?, List.find?_cons_of_neg (by simpa using hx)]

lemma puts_ofPairs (w : Rewrite) (d) (g) : (w.ofPairs d).puts g = get? d g := by
  show (if (d.map (·.1)).contains g then some (counterpart (d.map (·.1)) (d.map (·.2)) g) else none) = _
  by_cases hg : g ∈ d.map (·.1)
  · rw [if_pos (contains_iff_mem.2 hg), counterpart_eq hg (by rw [length_map, length_map]),
      get?_eq_getD hg]
  · rw [if_neg fun h => hg (contains_iff_mem.1 h)]
    rw [mem_keys_iff, Option.not_isSome_iff_eq_none] at hg
    exact hg.symm

lemma mergeRun_eq (v w) (run) :
    mergeRun (v :: w :: run) = v.ofPairs (mergeRun (v :: w :: run)).pairs :=
  foldl_join_eq run (by rw [pairs_join]; rfl)

lemma mergeRun_uniform (v w) (run) :
    Uniform v.before v.after [mergeRun (v :: w :: run)] := by
  rw [mergeRun_eq]
  exact forall_mem_singleton.2 ⟨rfl, rfl, rfl⟩

/-! ### What a run does -/

/-- Whether a place stands in a context; what follows begins behind the place. -/
def standsIn (before after : List Slot) (done tail : List String) : Bool :=
  fills (done.drop (done.length - before.length)) before && fills (tail.take after.length) after

lemma exists_of_isSingle (h : w.isSingle) : w.input = [w.source] ∧ w.output = [w.target] := by
  simp only [isSingle, Bool.and_eq_true, beq_iff_eq, length_eq_one_iff] at h
  obtain ⟨⟨i, hi⟩, ⟨o, ho⟩⟩ := h
  exact ⟨by rw [source, hi]; rfl, by rw [target, ho]; rfl⟩

lemma effect_single (h : w.isSingle) (done tail) (g) : effect [w] done (g :: tail) =
      if standsIn w.before w.after done tail then (w.puts g).map fun x => ([x], 1) else none := by
  obtain ⟨hi, ho⟩ := exists_of_isSingle h
  have hfits : w.fitsBetween done (g :: tail) = (standsIn w.before w.after done tail && w.source.contains g) := by
    unfold fitsBetween standsIn
    rw [hi, Bool.and_comm _ (w.source.contains g)]
    simp [fills, Bool.and_assoc]
  have hwritten : w.written [g] = [counterpart w.source w.target g] := by
    rw [written, hi, ho]
    rfl
  unfold effect puts
  rw [List.find?_singleton, hfits]
  cases standsIn w.before w.after done tail with
  | false => rfl
  | true =>
    cases w.source.contains g with
    | false => rfl
    | true => simp [hi, hwritten]

lemma first_cons (w) (run) (g) :
    first (w :: run) g = (w.puts g).or (first run g) := by
  rw [first, List.findSome?_cons]
  cases w.puts g <;> rfl

/-- The rules of a run as one put for a glyph what it becomes on the way through them. -/
lemma first_mergeRun (v w) (run) (g) :
    first [mergeRun (v :: w :: run)] g = followed (v :: w :: run) g := by
  rw [first_cons, mergeRun_eq, puts_ofPairs, mergeRun, get?_pairs_foldl_join]
  exact Option.or_none

/-- Where a run stands in its context, its first rule for a glyph is applied. -/
lemma effect_uniform {before after} (h : Uniform before after run) (done tail)
    (g) : effect run done (g :: tail) =
      if standsIn before after done tail then (first run g).map fun x => ([x], 1) else none := by
  induction run with
  | nil => split <;> rfl
  | cons w run ih =>
    obtain ⟨⟨hw, hbefore, hafter⟩, hrun⟩ := forall_mem_cons.1 h
    rw [first_cons, ← singleton_append, effect_append, Effect.or, effect_single hw, ih hrun, hbefore, hafter]
    split
    · rw [Option.map_or]
    · rfl

lemma effect_nil (h : ∀ w ∈ ws, w.input ≠ []) (done) : effect ws done [] = none := by
  refine Option.map_eq_none_iff.2 (List.find?_eq_none.2 fun w hw hfits => ?_)
  have hlength := fills_length (fitsBetween_iff.1 hfits).2.1
  rw [take_nil] at hlength
  exact h w hw (length_eq_zero_iff.1 hlength.symm)

lemma Uniform.input {before after} (h : Uniform before after run) : ∀ w ∈ run, w.input ≠ [] := by
  intro w hw
  rw [(exists_of_isSingle (h w hw).1).1]
  exact cons_ne_nil _ _

/-- Rules have nothing for a glyph that none of them reads. -/
lemma first_eq_none (h : ∀ w ∈ run, g ∉ w.source) : first run g = none := by
  refine List.findSome?_eq_none_iff.2 fun w hw => ?_
  rw [puts, if_neg fun hg => h w hw (contains_iff_mem.1 hg)]

lemma get?_pairs_eq_none (h : g ∉ w.source) : get? w.pairs g = none := by
  cases hfound : get? w.pairs g with
  | none => rfl
  | some x => exact absurd (mem_mapping ((mem_iff_get? w.pairs_nodup).2 hfound)).1 h

lemma followed_eq_none (h : ∀ w ∈ run, g ∉ w.source) : followed run g = none := by
  unfold followed
  induction run with
  | nil => rfl
  | cons w run ih =>
    obtain ⟨hw, hrun⟩ := forall_mem_cons.1 h
    have hfollow : follow g none w = none := get?_pairs_eq_none hw
    rw [foldl_cons, hfollow, ih hrun]

/-- **A faithful run does as one rule what it does.** -/
lemma Faithful.effect_eq (h : Faithful run) (hne : run ≠ []) (hchain : run.IsChain fun x y => joins x y) :
    effect run = effect [mergeRun run] := by
  obtain ⟨v, run, rfl⟩ := exists_cons_of_ne_nil hne
  cases run with
  | nil => rfl
  | cons w run =>
    have hv := (joins_iff.1 (isChain_cons_cons.1 hchain).1).1.1
    have uniform := uniform_of_isChain hv hchain
    have uniform' := mergeRun_uniform v w run
    have hsame : ∀ x ∈ v :: w :: run, ∀ g ∈ x.source, followed (v :: w :: run) g = first (v :: w :: run) g :=
      h.resolve_left (by simp)
    funext done rest
    cases rest with
    | nil => rw [effect_nil uniform.input, effect_nil uniform'.input]
    | cons g tail =>
      rw [effect_uniform uniform, effect_uniform uniform', first_mergeRun]
      by_cases hg : ∃ x ∈ v :: w :: run, g ∈ x.source
      · obtain ⟨x, hx, hg⟩ := hg
        rw [hsame x hx g hg]
      · have hnone : ∀ x ∈ v :: w :: run, g ∉ x.source := fun x hx hgx => hg ⟨x, hx, hgx⟩
        rw [first_eq_none hnone, followed_eq_none hnone]

lemma effect_merged (h : ∀ run ∈ ws.splitBy joins, Faithful run) : effect ws = effect (merged ws) := by
  have all (runs : List (List Rewrite)) (hruns : ∀ run ∈ runs, effect run = effect [mergeRun run]) :
      effect runs.flatten = effect (runs.map mergeRun) := by
    induction runs with
    | nil => rfl
    | cons run runs ih =>
      obtain ⟨hrun, hruns⟩ := forall_mem_cons.1 hruns
      rw [flatten_cons, map_cons, ← singleton_append, effect_append, effect_append, hrun, ih hruns]
  have := all (ws.splitBy joins) fun run hrun =>
    (h run hrun).effect_eq (ne_nil_of_mem_splitBy hrun) (isChain_of_mem_splitBy hrun)
  rwa [flatten_splitBy] at this

/-! ### Rules without context -/

/-- The same steps on every sequence that a rule can take up. -/
def SameSteps (ws ws' : List Rewrite) : Prop :=
  ∀ w ∈ ws, ∀ q ∈ Build.product w.input, (effect ws).step [] q = (effect ws').step [] q
deriving Decidable

lemma effect_ligates (hapt : ∀ w ∈ ws, w.Apt) : (effect ws).Ligates := by
  intro done rest x hx hlong
  obtain ⟨w, hw, -, rfl⟩ := effect_eq_some hx
  obtain ⟨o, ho⟩ := (hapt w hw).shape.output_singleton hlong
  obtain ⟨i, j, more, hinput⟩ := exists_cons_cons hlong
  refine ⟨o.headD "", ?_⟩
  simp only [written, hinput, ho]
  rfl

/-- A run as one rule is one of the rules, or a rule for the glyphs of a run. -/
lemma mem_merged (h : v ∈ merged ws) : v ∈ ws ∨
    ∃ u ∈ ws, v.before = u.before ∧ v.after = u.after ∧ ∃ slot, v.input = [slot] ∧
      ∀ g ∈ slot, ∃ w ∈ ws, fills [g] w.input = true := by
  obtain ⟨run, hrun, rfl⟩ := mem_map.1 h
  have hsub : ∀ w ∈ run, w ∈ ws := by
    intro w hw
    rw [← flatten_splitBy joins ws]
    exact mem_flatten.2 ⟨run, hrun, hw⟩
  have hchain := isChain_of_mem_splitBy hrun
  obtain ⟨u, run, rfl⟩ := exists_cons_of_ne_nil (ne_nil_of_mem_splitBy hrun)
  cases run with
  | nil => exact .inl (hsub u (.head _))
  | cons w run =>
    have uniform := uniform_of_isChain (joins_iff.1 (isChain_cons_cons.1 hchain).1).1.1 hchain
    refine .inr ⟨u, hsub u (.head _), ?_, ?_, _, by rw [mergeRun_eq]; rfl, fun g hg => ?_⟩
    · rw [mergeRun_eq]; rfl
    · rw [mergeRun_eq]; rfl
    · rw [mem_keys_iff, mergeRun, get?_pairs_foldl_join] at hg
      by_contra hnone
      have hnot : ∀ x ∈ u :: w :: run, g ∉ x.source := by
        intro x hx hgx
        refine hnone ⟨x, hsub x hx, ?_⟩
        rw [(exists_of_isSingle (uniform x hx).1).1]
        simpa [fills] using hgx
      have hfollowed : followed (u :: w :: run) g = none := followed_eq_none hnot
      rw [show (w :: run).foldl (follow g) (get? u.pairs g) = none from hfollowed] at hg
      cases hg

lemma window_merged (h : v ∈ merged ws) {q} (hq : fills q v.input) :
    ∃ w ∈ ws, fills q w.input = true := by
  rcases mem_merged h with hv | ⟨u, -, -, -, slot, hslot, hglyphs⟩
  · exact ⟨v, hv, hq⟩
  · rw [hslot] at hq
    obtain ⟨g, rfl⟩ := length_eq_one_iff.1 (fills_length hq)
    exact hglyphs g (by simpa [fills] using hq)

/-- Without context, merging leaves the same of every buffer exactly if it takes the same steps where a rule can take
up something. -/
lemma sweep_merged_iff (hapt : ∀ w ∈ ws, w.Apt) (hapt' : ∀ w ∈ merged ws, w.Apt)
    (hfree : ∀ w ∈ ws, w.inContext = false) :
    (∀ glyphs, sweep (effect ws) [] glyphs = sweep (effect (merged ws)) [] glyphs) ↔ SameSteps ws (merged ws) := by
  have hprefixed : (effect ws).Prefixed := effect_prefixed fun w hw => ⟨hfree w hw, (hapt w hw).shape.ne_nil.1⟩
  have hprefixed' : (effect (merged ws)).Prefixed := by
    refine effect_prefixed fun v hv => ⟨?_, (hapt' v hv).shape.ne_nil.1⟩
    rcases mem_merged hv with hv | ⟨u, hu, hbefore, hafter, -⟩
    · exact hfree v hv
    · rw [inContext, hbefore, hafter]
      exact hfree u hu
  constructor
  · intro hsame w hw q hq
    have hne : q ≠ [] := by
      rintro rfl
      exact (hapt w hw).shape.ne_nil.1 (length_eq_zero_iff.1 (fills_length (mem_product.1 hq)).symm)
    exact hprefixed.step_of_sweeps hprefixed' (effect_writes hapt) (effect_writes hapt') (effect_ligates hapt)
      (effect_ligates hapt') hsame hne
  · intro hsame glyphs
    refine sweep_congr (fun done rest _ => ?_) [] glyphs
    refine hprefixed.step_eq hprefixed' (fun q => ∃ w ∈ ws, fills q w.input) (fun _ _ => fills_of_effect)
      (fun rest x hx => ?_) ?_ done rest
    · obtain ⟨w, hw, hfills⟩ := fills_of_effect hx
      exact window_merged hw hfills
    · rintro q ⟨w, hw, hq⟩
      exact hsame w hw q (mem_product.2 hq)

/-! ### Merging step by step -/

/-- The rules that are left are merged into the last one as long as they can be. -/
def mergeFrom (v : Rewrite) : List Rewrite → List Rewrite
  | [] => [v]
  | w :: rest => if joins v w then mergeFrom (join v w) rest else v :: mergeFrom w rest

section
variable (hne : run ≠ []) (hchain : run.IsChain fun x y => joins x y = true)
include hne hchain

/-- A run takes up another rule if its last rule does. -/
lemma joins_mergeRun (w) : joins (mergeRun run) w = joins (run.getLast hne) w := by
  obtain ⟨u, run, rfl⟩ := exists_cons_of_ne_nil hne
  cases run with
  | nil => rfl
  | cons v run =>
    have uniform := uniform_of_isChain (joins_iff.1 (isChain_cons_cons.1 hchain).1).1.1 hchain
    obtain ⟨hlast, hbefore, hafter⟩ := uniform _ (getLast_mem hne)
    obtain ⟨hmerged, hbefore', hafter'⟩ := mergeRun_uniform u v run _ (mem_singleton_self _)
    unfold joins
    rw [hlast, hbefore, hafter, hmerged, hbefore', hafter']

lemma mergeFrom_eq (rest) : mergeFrom (mergeRun run) rest = merged (run ++ rest) := by
  -- `run` is what has been merged so far, and the next rule either joins it or starts the next run.
  induction rest generalizing run with
  | nil => rw [append_nil, merged, splitBy_of_isChain hne hchain]; rfl
  | cons w rest ih =>
    rw [mergeFrom, joins_mergeRun hne hchain]
    by_cases hjoins : joins (run.getLast hne) w = true
    · have hlonger : (run ++ [w]).IsChain fun x y => joins x y = true := by
        refine isChain_append.2 ⟨hchain, isChain_singleton w, ?_⟩
        intro x hx y hy
        rw [List.getLast?_eq_some_getLast hne, Option.mem_some_iff] at hx
        rw [List.head?_cons, Option.mem_some_iff] at hy
        rwa [← hx, ← hy]
      have hjoin : join (mergeRun run) w = mergeRun (run ++ [w]) := by
        obtain ⟨u, run, rfl⟩ := exists_cons_of_ne_nil hne
        rw [mergeRun, cons_append, mergeRun, foldl_append]
        rfl
      rw [if_pos hjoins, hjoin, ih (by simp) hlonger, append_assoc]
      rfl
    · have hsplit : (run ++ w :: rest).splitBy joins = [run] ++ (w :: rest).splitBy joins := by
        rw [splitBy_append_cons, splitBy_of_isChain hne hchain]
        intro x hx
        rw [List.getLast?_eq_some_getLast hne, Option.mem_some_iff] at hx
        exact hx ▸ Bool.eq_false_iff.2 hjoins
      have := ih (cons_ne_nil w []) (isChain_singleton w)
      rw [if_neg hjoins, merged, hsplit]
      exact congrArg _ this

end

end Rewrite

open Step Rewrite

section Rules
variable {font : Font}

lemma lt_of_isRewriting (h : IsRewriting font (b.rule id)) : id < b.rules.size := by
  refine Nat.lt_of_not_le fun hle => h.shape.ne_nil.1 ?_
  rw [rule_of_size_le hle]
  rfl

lemma isSingle_eq (h : IsRewriting font r) : isSingle r = .ok (ofRule r).isSingle := by
  obtain ⟨sub, hsub, hi, ho, -⟩ := h.sides
  unfold Optimise.isSingle Rewrite.isSingle
  simp only [hsub, hi, ho]
  rcases (ofRule r).input with _ | ⟨i, _ | ⟨j, input⟩⟩
  all_goals rfl

/-- A slot of every second part of a mapping between glyphs of the font is one of glyphs of the font. -/
lemma glyphs_compose (hv : v.isSingle) (hw : w.isSingle) (hvi : Glyphs font v.input)
    (hvo : Glyphs font v.output) (hwi : Glyphs font w.input) (hwo : Glyphs font w.output) :
    Glyphs font (join v w).input ∧ Glyphs font (join v w).output := by
  let p (g : String) := g ∈ font.names ∧ g.toList.head? ≠ some '@'
  have slot {slots} {s} (hs : slots = [s]) (h : Glyphs font slots) : s ≠ [] ∧ ∀ g ∈ s, p g :=
    h s (hs ▸ mem_singleton_self s)
  obtain ⟨hvne, hvs⟩ := slot (exists_of_isSingle hv).1 hvi
  obtain ⟨hvne', hvt⟩ := slot (exists_of_isSingle hv).2 hvo
  obtain ⟨-, hws⟩ := slot (exists_of_isSingle hw).1 hwi
  obtain ⟨-, hwt⟩ := slot (exists_of_isSingle hw).2 hwo
  have hne : compose v.pairs w.pairs ≠ [] := compose_ne_nil (mapping_ne_nil hvne hvne') _
  have hall := forall_compose (fun x hx => (mem_mapping hx).imp (hvs x.1) (hvt x.2)) fun x hx =>
    (mem_mapping hx).imp (hws x.1) (hwt x.2)
  constructor
  · exact forall_mem_singleton.2 ⟨by simpa using hne, forall_mem_map.2 fun x hx => (hall x hx).1⟩
  · exact forall_mem_singleton.2 ⟨by simpa using hne, forall_mem_map.2 fun x hx => (hall x hx).2⟩

section
variable {previous r : Rule} (hp : IsRewriting font previous) (hr : IsRewriting font r)
include hp hr

lemma mergeSingles_rewriting (hsingle : (ofRule previous).isSingle) (hsingle' : (ofRule r).isSingle)
    {a b} (ha : previous.body = .substitution a) (hb : r.body = .substitution b) (address) :
    IsRewriting font (mergeSingles a b address) ∧
      ofRule (mergeSingles a b address) = join (ofRule previous) (ofRule r) := by
  obtain ⟨a', ha', hai, hao, hab, haa, -⟩ := hp.sides
  cases ha.symm.trans ha'
  obtain ⟨b', hb', hbi, hbo, -⟩ := hr.sides
  cases hb.symm.trans hb'
  have heq : ofRule (mergeSingles a b address) = join (ofRule previous) (ofRule r) := by
    unfold mergeSingles join pairs
    rw [hai, hao, hbi, hbo, hab, haa]
    rfl
  obtain ⟨hi, ho⟩ := glyphs_compose hsingle hsingle' hp.input hp.output hr.input hr.output
  refine ⟨⟨⟨_, rfl, rfl, rfl⟩, ?_, ?_, ?_, ?_, ?_, rfl, rfl⟩, heq⟩
  · exact .single (.inr (by rw [length_map, length_map]))
  · rw [heq]
    exact hp.before
  · rwa [heq]
  · rw [heq]
    exact hp.after
  · rwa [heq]

/-- Two rules that can be merged give a rule that rewrites again, and others are left alone. -/
lemma mergeable?_eq : if joins (ofRule previous) (ofRule r) then
      ∃ rule, mergeable? previous r = .ok (some rule) ∧ IsRewriting font rule ∧
        ofRule rule = join (ofRule previous) (ofRule r)
    else mergeable? previous r = .ok none := by
  obtain ⟨a, ha, -, -, hab, haa, -⟩ := hp.sides
  obtain ⟨b, hb, -, -, hbb, hba, -⟩ := hr.sides
  unfold mergeable? joins
  rw [isSingle_eq hr, isSingle_eq hp, ok_bind, ok_bind, ← hab, ← hbb, ← haa, ← hba]
  cases hsingle' : (ofRule r).isSingle with
  | false => simp; rfl
  | true =>
    cases hsingle : (ofRule previous).isSingle with
    | false => rfl
    | true =>
      simp only [ha, hb, Bool.true_and]
      cases hcontext : a.before == b.before && a.after == b.after with
      | false => rfl
      | true =>
        exact ⟨_, rfl, mergeSingles_rewriting hp hr hsingle hsingle' ha hb _⟩

end

structure MoreRules (b b' : Book) : Prop where
  routines : b'.routines = b.routines
  size : b.rules.size ≤ b'.rules.size
  rule : ∀ id < b.rules.size, b'.rule id = b.rule id

lemma MoreRules.trans (h : MoreRules b b') (h' : MoreRules b' b'') : MoreRules b b'' where
  routines := h'.routines.trans h.routines
  size := h.size.trans h'.size
  rule id hid := (h'.rule id (Nat.lt_of_lt_of_le hid h.size)).trans (h.rule id hid)

/-- The rules that are left, one after the other: those that are done stay, and the last of them is where merging
goes on. -/
lemma foldlM_mergeNext {todo : List RuleId} (hlast : IsRewriting font (b.rule last))
    (htodo : ∀ id ∈ todo, IsRewriting font (b.rule id)) (before) :
    ∃ (new : List RuleId) (b' : Book),
      (todo.foldlM mergeNext (last :: before)).on b = (.ok (new.reverse ++ before), b') ∧
      MoreRules b b' ∧ (∀ id ∈ new, IsRewriting font (b'.rule id)) ∧
      (new.map fun id => ofRule (b'.rule id)) =
        mergeFrom (ofRule (b.rule last)) (todo.map fun id => ofRule (b.rule id)) := by
  induction todo generalizing b last before with
  | nil => exact ⟨[last], b, rfl, ⟨rfl, Nat.le_refl _, fun _ _ => rfl⟩, forall_mem_singleton.2 hlast, rfl⟩
  | cons id todo ih =>
    obtain ⟨hid, htodo⟩ := forall_mem_cons.1 htodo
    have hmergeable := mergeable?_eq hlast hid
    rw [foldlM_cons, map_cons, mergeFrom, mergeNext, bind_assoc, on_get_bind]
    split at hmergeable
    · next hjoins =>
      obtain ⟨rule, hrule, hrewriting, heq⟩ := hmergeable
      -- The merged rule is a new one, so those still to come are as they were.
      have more : MoreRules b (b.addRule rule).2 :=
        ⟨rfl, by simp [addRule], fun i hi => by rw [b.rule_addRule, if_neg hi.ne]⟩
      have hnew := (b.rule_addRule rule (b.addRule rule).1).trans (if_pos rfl)
      have hsame : ∀ i ∈ todo, (b.addRule rule).2.rule i = b.rule i := fun i hi =>
        more.rule i (lt_of_isRewriting (htodo i hi))
      have hlast' : IsRewriting font ((b.addRule rule).2.rule (b.addRule rule).1) := by rwa [hnew]
      obtain ⟨new, b', hrun, more', hall, hmap⟩ := ih hlast' (fun i hi => by rw [hsame i hi]; exact htodo i hi) before
      simp only [hrule]
      refine ⟨new, b', hrun, more.trans more', hall, ?_⟩
      rw [hmap, if_pos hjoins, hnew]
      congr 1
      exact map_congr_left fun i hi => congrArg _ (hsame i hi)
    · next hjoins =>
      obtain ⟨new, b', hrun, more, hall, hmap⟩ := ih hid htodo (last :: before)
      have hkept : b'.rule last = b.rule last := more.rule last (lt_of_isRewriting hlast)
      refine ⟨last :: new, b', ?_, more, forall_mem_cons.2 ⟨by rwa [hkept], hall⟩, ?_⟩
      · simp only [hmergeable, reverse_cons, append_assoc]
        exact hrun
      · rw [if_neg hjoins, map_cons, hmap, hkept]

/-- **After merging, a routine has each run of its rules as one rule.** -/
lemma mergeAdjacent_on {ids} (hcontent : (b.routine i).content = .rules ids)
    (hrules : ∀ r ∈ b.rulesOf i, IsRewriting font r) :
    ∃ b', (mergeAdjacent i).on b = (.ok (), b') ∧ (b'.routine i).flags = (b.routine i).flags ∧
      (∀ r ∈ b'.rulesOf i, IsRewriting font r) ∧
      (b'.rulesOf i).map ofRule = merged ((b.rulesOf i).map ofRule) := by
  have hids : b.ruleIds i = ids := ruleIds_rules hcontent
  rw [mergeAdjacent, on_get_bind]
  rcases ids with _ | ⟨first, _ | ⟨second, rest⟩⟩
  iterate 2
    · refine ⟨b, by simp only [hids]; rfl, rfl, hrules, ?_⟩
      rw [rulesOf, hids]
      rfl
  · simp only [hids]
    have hall : ∀ id ∈ first :: second :: rest, IsRewriting font (b.rule id) := fun id hid =>
      hrules _ (mem_map_of_mem (hids ▸ hid))
    obtain ⟨hfirst, hrest⟩ := forall_mem_cons.1 hall
    obtain ⟨new, b', hrun, more, hnew, hmap⟩ := foldlM_mergeNext hfirst hrest []
    rw [append_nil] at hrun
    have hroutine := routine_of_eq more.routines i
    have hlt : i < b'.routines.size := by
      rw [more.routines]
      exact lt_of_ruleIds (by rw [hids]; exact cons_ne_nil _ _)
    have hset : (b'.setRules i new).routine i = (b.routine i).withRules new := by
      rw [setRules, routine_alterRoutine_self hlt, hroutine]
    have hnewIds : (b'.setRules i new).rulesOf i = new.map b'.rule := by
      rw [rulesOf, ruleIds_rules (by rw [hset, content_withRules hcontent])]
      rfl
    refine ⟨b'.setRules i new, ?_, ?_, ?_, ?_⟩
    · rw [on_bind_ok hrun, on_modify, reverse_reverse]
    · rw [hset]
      rw [Routine.withRules, hcontent]
    · rw [hnewIds]
      exact forall_mem_map.2 hnew
    · have hrow := mergeFrom_eq (cons_ne_nil (ofRule (b.rule first)) []) (isChain_singleton _)
        ((second :: rest).map fun id => ofRule (b.rule id))
      rw [hnewIds, map_map, rulesOf, hids, map_map]
      exact hmap.trans hrow

/-- **Merging and shaping.** Where the runs are faithful, the merged routine shapes as before; without context it does
so exactly if it takes the same steps. -/
theorem mergeAdjacent_shapes {b : Book} {i : RoutineId} {ids : List RuleId}
    (hcontent : (b.routine i).content = .rules ids) (hrules : ∀ r ∈ b.rulesOf i, IsRewriting font r) :
    ∃ b', (Optimise.mergeAdjacent i).on b = (.ok (), b') ∧ (b'.routine i).flags = (b.routine i).flags ∧
      (∀ r ∈ b'.rulesOf i, IsRewriting font r) ∧
      (b'.rulesOf i).map ofRule = merged ((b.rulesOf i).map ofRule) ∧
      ((∀ run ∈ ((b.rulesOf i).map ofRule).splitBy joins, Faithful run) →
        ShapeAlike font (b.rulesOf i) (b'.rulesOf i)) ∧
      ((∀ r ∈ b.rulesOf i, r.hasContext = false) → (ShapeAlike font (b.rulesOf i) (b'.rulesOf i) ↔
          SameSteps ((b.rulesOf i).map ofRule) ((b'.rulesOf i).map ofRule))) := by
  obtain ⟨b', hrun, hflags, hrules', hmerged⟩ := mergeAdjacent_on hcontent hrules
  have apt {rules : List Rule} (h : ∀ r ∈ rules, IsRewriting font r) : ∀ w ∈ rules.map ofRule, w.Apt :=
    List.forall_mem_map.2 fun r hr => ⟨(h r hr).shape, fun slot hslot => ((h r hr).input slot hslot).1⟩
  refine ⟨b', hrun, hflags, hrules', hmerged, fun hfaithful => ?_, fun hfree => ?_⟩
  · rw [shapeAlike_iff hrules hrules', hmerged, effect_merged hfaithful]
    exact fun _ => rfl
  · rw [shapeAlike_iff hrules hrules', hmerged]
    exact sweep_merged_iff (apt hrules) (hmerged ▸ apt hrules') (List.forall_mem_map.2 hfree)

end Rules
section Sample

def oneRoutine (rules : List Substitution) : Book :=
  { routines := #[{ content := .rules (List.range rules.length) }]
    rules := (rules.map fun s => Rule.ofBody (.substitution s)).toArray }

/-- Letters for letters, a class for a class among them, and a ligature between two runs. -/
def lettersAround : List Substitution :=
  [{ input := some [["a", "b"]], replacement := some [["b", "a"]] },
   { input := some [["c"]], replacement := some [["x"]] },
   { input := some [["f"], ["i"]], replacement := some [["f_i"]] },
   { input := some [["f"]], replacement := some [["i"]] }]

lemma lettersAround_rewriting : ∀ r ∈ (oneRoutine lettersAround).rulesOf 0, IsRewriting sampleFont r := by
  decide +kernel

theorem mergeAdjacent_shapes_letters : ∃ b, (Optimise.mergeAdjacent 0).on (oneRoutine lettersAround) = (.ok (), b) ∧
    (b.rulesOf 0).length = 3 ∧ ShapeAlike sampleFont ((oneRoutine lettersAround).rulesOf 0) (b.rulesOf 0) := by
  obtain ⟨b, hrun, -, -, hmerged, hfaithful, -⟩ := mergeAdjacent_shapes rfl lettersAround_rewriting
  refine ⟨b, hrun, ?_, hfaithful (by decide +kernel)⟩
  rw [← List.length_map, hmerged]
  decide +kernel

/-- One letter for another, and a third for that. -/
def chainedLetters : List Substitution :=
  [{ input := some [["a"]], replacement := some [["b"]] }, { input := some [["b"]], replacement := some [["c"]] }]

lemma chainedLetters_rewriting : ∀ r ∈ (oneRoutine chainedLetters).rulesOf 0, IsRewriting sampleFont r := by
  decide +kernel

/-- **A merged rule goes on where a routine stops**: a letter that becomes another becomes a third. -/
theorem mergeAdjacent_follows : ∃ b t t', (Optimise.mergeAdjacent 0).on (oneRoutine chainedLetters) = (.ok (), b) ∧
    (Shape.applyRoutine [] none none 0).on { sampleSession [] ["a"] with book := oneRoutine chainedLetters } =
      (.ok (), t) ∧ t.buffer.items.map (·.glyph) = [some "b"] ∧
    (Shape.applyRoutine [] none none 0).on { sampleSession [] ["a"] with book := b } = (.ok (), t') ∧
      t'.buffer.items.map (·.glyph) = [some "c"] := by
  obtain ⟨b, hrun, hflags, hrules, hmerged⟩ := mergeAdjacent_on rfl chainedLetters_rewriting
  have poised (book : Book) (h : (book.routine 0).flags = .bits 0) : Shape.Poised none sampleFont (book.rulesOf 0)
      ["a"] 0 { sampleSession [] ["a"] with book } :=
    ⟨rfl, by rw [h]; rfl, rfl, rfl, by rintro f - (hf | hf) <;> cases hf⟩
  obtain ⟨t, ht, hglyphs⟩ := (poised (oneRoutine chainedLetters) rfl).applyRoutine chainedLetters_rewriting []
    none_ne_pos
  obtain ⟨t', ht', hglyphs'⟩ := (poised b hflags).applyRoutine hrules [] none_ne_pos
  rw [sweep_whole (List.cons_ne_nil "a" []) (show _ = some (["b"], 1) by decide +kernel)] at hglyphs
  rw [hmerged, sweep_whole (List.cons_ne_nil "a" []) (show _ = some (["c"], 1) by decide +kernel)] at hglyphs'
  exact ⟨b, t, t', hrun, ht, hglyphs, ht', hglyphs'⟩

end Sample

end Shaping

end GlyphRules
