import Mathlib
import GlyphRules.Proofs.Dict
import GlyphRules.Proofs.Text
import GlyphRules.Scalar.Model

/-! Values by location.

A scalar is given values at locations. Whatever order and spelling they have, the value at a location is the latest one
given where it lies, and there is one at the default exactly if one was given there (`addAll_latest`). The scale may be
any whose answers are zero or fractions. That fractions are compared by a partial equivalence is known to the whole
library only. -/
namespace GlyphRules.VariableScalar

open List Step

variable {scale : Scale} {axes : List Axis} {tag : String} {l m n k k' : Location}
  {calls done : List (Location × Number)}

/-! ### Where a location lies -/

/-- Where a location lies on the axis of a tag, at the default if it does not say. -/
def coordinate (scale : Scale) (axes : List Axis) (l : Location) (tag : String) : Option Number :=
  match l.get? tag with
  | none => some (.int 0)
  | some v => (axes.find? (·.tag == tag)).bind fun a => (scale a v).toOption

/-- Two locations lie at the same place on every axis. -/
def agree (scale : Scale) (axes : List Axis) (l m : Location) : Bool :=
  axes.all fun a => (coordinate scale axes l a.tag).any fun x =>
    (coordinate scale axes m a.tag).any fun y => x.toFloat == y.toFloat

lemma agree_iff : agree scale axes l m ↔ ∀ a ∈ axes, ∃ x, coordinate scale axes l a.tag = some x ∧
    ∃ y, coordinate scale axes m a.tag = some y ∧ x.toFloat == y.toFloat := by
  simp [agree, Option.any_eq_true]

lemma agree_symm (h : agree scale axes l m) : agree scale axes m l := by
  refine agree_iff.2 fun a ha => ?_
  obtain ⟨x, hx, y, hy, hxy⟩ := agree_iff.1 h a ha
  exact ⟨y, hy, x, hx, BEq.symm hxy⟩

lemma agree_trans (h : agree scale axes l m) (h' : agree scale axes m n) : agree scale axes l n := by
  refine agree_iff.2 fun a ha => ?_
  obtain ⟨x, hx, y, hy, hxy⟩ := agree_iff.1 h a ha
  obtain ⟨y', hy', z, hz, hyz⟩ := agree_iff.1 h' a ha
  cases hy.symm.trans hy'
  exact ⟨x, hx, z, hz, BEq.trans hxy hyz⟩

/-- What a scale answers is zero or a fraction. Large integers are not compared as fractions are. -/
def Plain (scale : Scale) : Prop := ∀ a v x, scale a v = .ok x → x = .int 0 ∨ ∃ r, x = .real r

lemma plain_normalise : Plain Axis.normalise := by
  intro a v x h
  unfold Axis.normalise at h
  grind [Number.div]

lemma coordinate_beq (hscale : Plain scale) {x y} (hx : coordinate scale axes l tag = some x)
    (hy : coordinate scale axes m tag = some y) : (x == y) = (x.toFloat == y.toFloat) := by
  have kind {l x} (h : coordinate scale axes l tag = some x) : x = .int 0 ∨ ∃ r, x = .real r := by
    unfold coordinate at h
    generalize axes.find? (·.tag == tag) = axis at h
    cases axis with
    | none => grind
    | some a =>
      cases hv : l.get? tag with
      | none => grind
      | some v => cases hx : scale a v <;> grind [Except.toOption, Plain]
  rcases kind hx with rfl | ⟨x, rfl⟩ <;> rcases kind hy with rfl | ⟨y, rfl⟩ <;> rfl

lemma coordinate_new (h : tag ∉ l.map (·.1)) : coordinate scale axes l tag = some (.int 0) := by
  rw [Dict.mem_keys_iff, Option.not_isSome_iff_eq_none] at h
  simp only [coordinate, show l.get? tag = none from h]

/-! ### Normalised locations -/

/-- A location is a dictionary and names no axis that is not there. -/
structure Known (axes : List Axis) (l : Location) : Prop where
  distinct : (l.map (·.1)).Nodup
  tags : l.map (·.1) ⊆ axes.map Axis.tag

/-- The axes in the order in which a location names them, then the others. -/
def order (axes : List Axis) (l : Location) : List String :=
  l.map (·.1) ++ Text.distinct ((axes.filter fun a => !(l.any (·.1 == a.tag))).map (·.tag))

section
variable (hl : Known axes l)
include hl

lemma nodup_order : (order axes l).Nodup :=
  nodup_append'.2 ⟨hl.distinct, Text.nodup_distinct _, fun t ht ht' => by grind [Text.mem_distinct]⟩

lemma mem_order : tag ∈ order axes l ↔ tag ∈ axes.map Axis.tag := by
  rw [order, mem_append, Text.mem_distinct]
  have := @hl.tags tag
  grind

lemma normalise_eq_ok : normalise axes l scale = .ok k ↔
    (∀ t ∈ order axes l, (coordinate scale axes l t).isSome) ∧
      k = (order axes l).map fun t => (t, (coordinate scale axes l t).getD 0) := by
  have new : ∀ t ∈ Text.distinct ((axes.filter fun a => !(l.any (·.1 == a.tag))).map (·.tag)),
      coordinate scale axes l t = some (.int 0) := fun t ht => coordinate_new (by grind [Text.mem_distinct])
  unfold normalise
  rw [bind_eq_ok_of (mapM_eq_ok_iff (P := fun x : String × Number => (coordinate scale axes l x.1).isSome)
    (g := fun x : String × Number => (x.1, (coordinate scale axes l x.1).getD 0)) fun x hx {y} => ?_), pure_eq_ok]
  · simp only [any_map, Function.comp_def]
    rw [order, forall_mem_append, forall_mem_map, and_iff_left fun t ht => by rw [new t ht]; rfl, map_append, map_map,
      map_congr_left (g := fun t => (t, (coordinate scale axes l t).getD 0)) fun t ht => by rw [new t ht]; rfl]
    rfl
  · have hv : l.get? x.1 = some x.2 := (Dict.mem_iff_get? hl.distinct).1 hx
    simp only [coordinate, hv]
    cases axes.find? (·.tag == x.1) with
    | none => simp
    | some a => cases hn : scale a x.2 <;> simp [hn, Except.toOption, eq_comm]

lemma exists_normalise (h : agree scale axes l m) : ∃ k, normalise axes l scale = .ok k := by
  refine ⟨_, (normalise_eq_ok hl).2 ⟨fun t ht => ?_, rfl⟩⟩
  obtain ⟨a, ha, rfl⟩ := mem_map.1 ((mem_order hl).1 ht)
  obtain ⟨x, hx, -⟩ := agree_iff.1 h a ha
  rw [hx]
  rfl

/-- **Normalised locations are the same if they agree**, however they were spelled. -/
lemma same_eq_agree (hscale : Plain scale) (hk : normalise axes l scale = .ok k) (hm : Known axes m)
    (hk' : normalise axes m scale = .ok k') : k.same k' = agree scale axes l m := by
  obtain ⟨hsome, rfl⟩ := (normalise_eq_ok hl).1 hk
  obtain ⟨hsome', rfl⟩ := (normalise_eq_ok hm).1 hk'
  have hmem t : t ∈ order axes l ↔ t ∈ order axes m := by rw [mem_order hl, mem_order hm]
  have hlength := ((perm_ext_iff_of_nodup (nodup_order hl) (nodup_order hm)).2 hmem).length_eq
  have get {t} (ht : t ∈ order axes l) :
      Location.get? ((order axes m).map fun t => (t, (coordinate scale axes m t).getD 0)) t =
        some ((coordinate scale axes m t).getD 0) :=
    (Dict.mem_iff_get? (by simpa [Function.comp_def] using nodup_order hm)).1 (mem_map_of_mem ((hmem t).1 ht))
  rw [Bool.eq_iff_iff, agree_iff, Location.same, Bool.and_eq_true, all_eq_true]
  constructor
  · rintro ⟨-, h⟩ a ha
    have ht : a.tag ∈ order axes l := (mem_order hl).2 (mem_map_of_mem ha)
    obtain ⟨x, hx⟩ := Option.isSome_iff_exists.1 (hsome _ ht)
    obtain ⟨y, hy⟩ := Option.isSome_iff_exists.1 (hsome' _ ((hmem _).1 ht))
    have hxy := h _ (mem_map_of_mem ht)
    simp only [get ht, hx, hy] at hxy
    exact ⟨x, hx, y, hy, coordinate_beq hscale hx hy ▸ hxy⟩
  · refine fun h => ⟨by simpa using hlength, forall_mem_map.2 fun t ht => ?_⟩
    obtain ⟨a, ha, rfl⟩ := mem_map.1 ((mem_order hl).1 ht)
    obtain ⟨x, hx, y, hy, hxy⟩ := h a ha
    simp only [get ht, hx, hy]
    exact coordinate_beq hscale hx hy ▸ hxy

end

/-! ### One value after the other -/

/-- A scalar that is given values in turn; what is refused leaves it as it was. -/
def addAll (scale : Scale) (s : VariableScalar) (calls : List (Location × Number)) : VariableScalar :=
  calls.foldl (fun s c => (s.add c.1 c.2 scale).toOption.getD s) s

/-- A scalar answers as the first of the calls says that agrees. -/
structure Answers (scale : Scale) (axes : List Axis) (calls : List (Location × Number)) (s : VariableScalar) :
    Prop where
  fixed : s.axes = axes
  keys : ∀ x ∈ s.values, ∃ m, Known axes m ∧ normalise axes m scale = .ok x.1
  find? : ∀ {l k}, Known axes l → normalise axes l scale = .ok k →
    s.find? k = (calls.find? fun c => agree scale axes c.1 l).map (·.2)

section
variable (hscale : Plain scale)
include hscale

lemma Answers.add (h : Answers scale axes calls s) {c} (hc : Known axes c.1) :
    Answers scale axes (c :: calls) ((s.add c.1 c.2 scale).toOption.getD s) := by
  have hadd : s.add c.1 c.2 scale =
      normalise axes c.1 scale >>= fun k => pure { s with values := insert s.values k c.2 } := by
    rw [← h.fixed]
    rfl
  rw [hadd]
  cases hk₀ : normalise axes c.1 scale with
  | error e =>
    -- What cannot be normalised agrees with nothing.
    refine ⟨h.fixed, h.keys, fun {l k} hl hk => ?_⟩
    rw [find?_cons_of_neg]
    · exact h.find? hl hk
    · intro hagree
      obtain ⟨k, hok⟩ := exists_normalise hc hagree
      cases hk₀.symm.trans hok
  | ok k₀ =>
    refine ⟨h.fixed, fun (x : Location × Number) (hx : x ∈ insert s.values k₀ c.2) => ?_, fun {l k} hl hk => ?_⟩
    · have := h.keys
      unfold insert at hx
      grind
    · have found : (((insert s.values k₀ c.2).find? (·.1.same k)).map (·.2)) = _ :=
        Dict.find?_put_of Location.same c.2 (fun x hx hsame => ?_) fun x hx hsame hsame' => ?_
      · refine found.trans ?_
        rw [same_eq_agree hc hscale hk₀ hl hk, List.find?_cons]
        cases agree scale axes c.1 l with
        | true => rfl
        | false => exact h.find? hl hk
      · obtain ⟨m, hm, hx⟩ := h.keys x hx
        rw [same_eq_agree hm hscale hx hc hk₀] at hsame
        rw [same_eq_agree hm hscale hx hl hk, same_eq_agree hc hscale hk₀ hl hk]
        exact Bool.eq_iff_iff.2 ⟨agree_trans (agree_symm hsame), agree_trans hsame⟩
      · obtain ⟨m, hm, hx⟩ := h.keys x hx
        rw [same_eq_agree hm hscale hx hl hk] at hsame
        rw [same_eq_agree hc hscale hk₀ hl hk] at hsame'
        rw [same_eq_agree hm hscale hx hc hk₀]
        exact agree_trans hsame (agree_symm hsame')

lemma Answers.addAll (h : Answers scale axes done s) (hcalls : ∀ c ∈ calls, Known axes c.1) :
    Answers scale axes (calls.reverse ++ done) (addAll scale s calls) := by
  induction calls generalizing done s with
  | nil => exact h
  | cons c calls ih =>
    obtain ⟨hc, hcalls⟩ := forall_mem_cons.1 hcalls
    rw [reverse_cons, append_assoc]
    exact ih (h.add hscale hc) hcalls

end

/-- **A scalar has at a location the latest value that was given where it lies**, if any was, and none at the default
exactly if none was given there. -/
theorem addAll_latest (hscale : Plain scale) (hcalls : ∀ c ∈ calls, Known axes c.1) :
    (∀ l c, Known axes l → (calls.reverse.find? fun c => agree scale axes c.1 l) = some c →
      (addAll scale ⟨axes, []⟩ calls).valueAt l scale = .ok (some c.2)) ∧
    ((addAll scale ⟨axes, []⟩ calls).atDefault = .error (.refused .noDefault) ↔
      ∀ c ∈ calls, agree scale axes c.1 [] = false) := by
  have start : Answers scale axes [] ⟨axes, []⟩ := ⟨rfl, forall_mem_nil _, fun _ _ => rfl⟩
  have answers := start.addAll hscale hcalls
  rw [append_nil] at answers
  constructor
  · intro l c hl hc
    have agrees : agree scale axes c.1 l = true :=
      List.find?_some (p := fun c : Location × Number => agree scale axes c.1 l) hc
    obtain ⟨k, hk⟩ := exists_normalise hl (agree_symm agrees)
    rw [valueAt, answers.fixed, hk]
    simp only [ok_bind, answers.find? hl hk, hc]
    rfl
  · have none : normalise axes [] scale = .ok ((Text.distinct (axes.map (·.tag))).map fun t => (t, .int 0)) := by
      simp [normalise, pure, Except.pure]
    have known : Known axes [] := ⟨nodup_nil, nil_subset _⟩
    rw [atDefault, answers.fixed]
    simp only [answers.find? known none]
    cases hc : calls.reverse.find? fun c => agree scale axes c.1 [] with
    | none => simpa using hc
    | some c =>
      refine iff_of_false (by simp) fun h => ?_
      have agrees := List.find?_some (p := fun c : Location × Number => agree scale axes c.1 []) hc
      rw [h c (mem_reverse.1 (mem_of_find?_eq_some hc))] at agrees
      cases agrees

def weightAndWidth : List Axis := [⟨"wght", 200, 200, 1000⟩, ⟨"wdth", 100, 100, 200⟩]

def boldTwice : List (Location × Number) := [([("wght", 1000), ("wdth", 100)], 10), ([("wght", 1200)], 20)]

theorem addAll_latest_boldTwice :
    (addAll Axis.normalise ⟨weightAndWidth, []⟩ boldTwice).valueAt [("wdth", 50), ("wght", 1000)] = .ok (some 20) ∧
    (addAll Axis.normalise ⟨weightAndWidth, []⟩ boldTwice).atDefault = .error (.refused .noDefault) := by
  have known : ∀ l ∈ [("wdth", 50), ("wght", 1000)] :: boldTwice.map (·.1), Known weightAndWidth l := by
    refine fun l hl => ⟨?_, ?_⟩ <;> revert l <;> decide
  obtain ⟨latest, none⟩ := @addAll_latest Axis.normalise weightAndWidth boldTwice plain_normalise
    fun c hc => known _ (.tail _ (mem_map_of_mem hc))
  exact ⟨latest _ ([("wght", 1200)], 20) (known _ (.head _)) rfl, none.2 (by decide +kernel)⟩

end GlyphRules.VariableScalar
