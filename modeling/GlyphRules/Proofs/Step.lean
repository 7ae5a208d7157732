import Mathlib.Data.List.Forall2
import GlyphRules.Step

/-! How steps and loops run.

What `on` gives for each way to build a step; `Keeps` is for what holds of the state before and
after, however a step ends. `after` says where a loop stands before each of its passes: a loop has
no outcome exactly when it always stands somewhere (`loop_eq_none_iff`). From an invariant of the
passes follow that a loop ends, what holds where it ends, or that it never does. -/
namespace GlyphRules

open List

variable {k n m : Nat}

/-! ### Lists -/

lemma mem_ifNew {α : Type} [BEq α] [LawfulBEq α] {l : List α} {a x} :
    a ∈ (if l.contains x then l else l ++ [x]) ↔ a ∈ l ∨ a = x := by
  split
  · next h =>
    have hx : x ∈ l := by simpa using h
    exact ⟨.inl, fun ha => ha.elim id fun ha => ha ▸ hx⟩
  · simp

section Forall₂
variable {α β γ : Type} {R : α → β → Prop} {l : List α} {l' : List β}

lemma forall₂_getElem?_left (h : Forall₂ R l l') {x} (hx : l[n]? = some x) : ∃ y, l'[n]? = some y ∧ R x y := by
  obtain ⟨hlength, hget⟩ := List.forall₂_iff_get.1 h
  obtain ⟨hn, rfl⟩ := List.getElem?_eq_some_iff.1 hx
  exact ⟨l'[n], List.getElem?_eq_getElem (hlength ▸ hn), hget n hn (hlength ▸ hn)⟩

lemma forall₂_mem_left (h : Forall₂ R l l') {x} (hx : x ∈ l) : ∃ y ∈ l', R x y := by
  obtain ⟨n, hn⟩ := mem_iff_getElem?.1 hx
  obtain ⟨y, hy, hxy⟩ := forall₂_getElem?_left h hn
  exact ⟨y, mem_of_getElem? hy, hxy⟩

lemma forall₂_mem_right (h : Forall₂ R l l') {y} (hy : y ∈ l') : ∃ x ∈ l, R x y :=
  forall₂_mem_left (Forall₂.flip h) hy

lemma forall₂_trans {T} (htrans : ∀ {x y z}, R x y → S y z → T x z)
    {l'' : List γ} (h : Forall₂ R l l') (h' : Forall₂ S l' l'') : Forall₂ T l l'' := by
  induction h generalizing l'' with
  | nil =>
    cases h'
    exact .nil
  | cons hxy _ ih =>
    cases h' with
    | cons hyz h' => exact .cons (htrans hxy hyz) (ih h')

lemma forall₂_set {R} (hrefl : ∀ x, R x x) {n} {x y} (hx : l[n]? = some x)
    (hxy : R x y) : Forall₂ R l (l.set n y) := by
  induction l generalizing n with
  | nil => cases hx
  | cons a l ih =>
    cases n with
    | zero =>
      obtain rfl : a = x := by simpa using hx
      exact .cons hxy (List.forall₂_same.2 fun a _ => hrefl a)
    | succ n => exact .cons (hrefl a) (ih hx)

lemma map_of_forall₂ {g : β → γ} (h : Forall₂ (fun a b => g b = f a) l l') : l'.map g = l.map f := by
  induction h with
  | nil => rfl
  | cons h _ ih => rw [map_cons, map_cons, h, ih]

lemma filterMap_of_forall₂ {g : β → Option γ} (h : Forall₂ (fun a b => g b = f a) l l') :
    l'.filterMap g = l.filterMap f := by
  simpa using congrArg (filterMap id) (map_of_forall₂ h)

end Forall₂

namespace Step
variable {σ α β : Type} {f g : α → Except Fault β} {l : List α}

/-! ### Opening a step -/

@[simp] lemma ok_bind (a) (f : α → Except Fault β) : Except.ok a >>= f = f a := rfl

lemma bind_eq_ok : x >>= f = .ok b ↔ ∃ a, x = .ok a ∧ f a = .ok b := by
  constructor
  · intro h
    cases x with
    | error e => cases h
    | ok a => exact ⟨a, rfl, h⟩
  · rintro ⟨a, rfl, h⟩
    exact h

lemma exists_of_isOk {x : Except Fault α} (h : x.isOk) : ∃ a, x = .ok a := by
  cases x with
  | error _ => cases h
  | ok a => exact ⟨a, rfl⟩

lemma pure_eq_ok : (pure a : Except Fault α) = .ok b ↔ b = a :=
  ⟨fun h => (Except.ok.inj h).symm, fun h => congrArg Except.ok h.symm⟩

lemma bind_eq_ok_of (h : ∀ {a'}, x = .ok a' ↔ P ∧ a' = a)
    {b} : x >>= f = .ok b ↔ P ∧ f a = .ok b := by
  simp only [bind_eq_ok, h, and_assoc, exists_and_left, exists_eq_left]

section MapM
variable {bs : List β}

lemma mapM_iff_forall₂ : l.mapM f = .ok bs ↔ Forall₂ (fun a b => f a = .ok b) l bs := by
  constructor
  · intro h
    induction l generalizing bs with
    | nil =>
      cases h
      exact .nil
    | cons a l ih =>
      rw [mapM_cons] at h
      obtain ⟨b, hb, h⟩ := bind_eq_ok.1 h
      obtain ⟨bs', hbs, h⟩ := bind_eq_ok.1 h
      cases h
      exact .cons hb (ih hbs)
  · intro h
    induction h with
    | nil => rfl
    | cons hb _ ih => rw [mapM_cons, hb, ih]; rfl

lemma except_mapM_mem (h : l.mapM f = .ok bs) {b} (hb : b ∈ bs) : ∃ a ∈ l, f a = .ok b :=
  forall₂_mem_right (mapM_iff_forall₂.1 h) hb

lemma except_mem_mapM (h : l.mapM f = .ok bs) {a} (ha : a ∈ l) : ∃ b ∈ bs, f a = .ok b :=
  forall₂_mem_left (mapM_iff_forall₂.1 h) ha

/-- Two rows of questions, the second about what the first gave: all have answers that suit if each has. -/
lemma except_mapM_trip {γ : Type} {g : β → Except Fault γ} {R} :
    (∃ bs cs, l.mapM f = .ok bs ∧ bs.mapM g = .ok cs ∧ Forall₂ R l cs) ↔
      ∀ a ∈ l, ∃ b c, f a = .ok b ∧ g b = .ok c ∧ R a c := by
  constructor
  · rintro ⟨bs, cs, hbs, hcs, hsuits⟩
    rw [mapM_iff_forall₂] at hbs hcs
    induction hbs generalizing cs with
    | nil => exact forall_mem_nil _
    | cons hb _ ih =>
      cases hcs with
      | cons hc hcs =>
        cases hsuits with
        | cons hsuit hsuits => exact forall_mem_cons.2 ⟨⟨_, _, hb, hc, hsuit⟩, ih _ hcs hsuits⟩
  · intro h
    induction l with
    | nil => exact ⟨[], [], rfl, rfl, .nil⟩
    | cons a l ih =>
      obtain ⟨⟨b, c, hb, hc, hsuit⟩, hl⟩ := forall_mem_cons.1 h
      obtain ⟨bs, cs, hbs, hcs, hsuits⟩ := ih hl
      rw [mapM_iff_forall₂] at hbs hcs
      exact ⟨b :: bs, c :: cs, mapM_iff_forall₂.2 (.cons hb hbs), mapM_iff_forall₂.2 (.cons hc hcs), .cons hsuit hsuits⟩

/-- A row of questions, each answered exactly where something holds, and then by a function. -/
lemma mapM_eq_ok_iff {P : α → Prop} {g} (h : ∀ a ∈ l, ∀ {b}, f a = .ok b ↔ P a ∧ b = g a) :
    l.mapM f = .ok bs ↔ (∀ a ∈ l, P a) ∧ bs = l.map g := by
  rw [mapM_iff_forall₂]
  constructor
  · intro hall
    induction hall with
    | nil => exact ⟨forall_mem_nil _, rfl⟩
    | cons hb _ ih =>
      obtain ⟨ha, hl⟩ := forall_mem_cons.1 h
      obtain ⟨hp, rfl⟩ := ha.1 hb
      obtain ⟨hps, rfl⟩ := ih hl
      exact ⟨forall_mem_cons.2 ⟨hp, hps⟩, rfl⟩
  · rintro ⟨hl, rfl⟩
    exact List.forall₂_map_right_iff.2 (List.forall₂_same.2 fun a ha => (h a ha).2 ⟨hl a ha, rfl⟩)

lemma mapM_ok {g} (h : ∀ a ∈ l, f a = .ok (g a)) : l.mapM f = .ok (l.map g) := by
  rwa [mapM_iff_forall₂, List.forall₂_map_right_iff, List.forall₂_same]

end MapM

@[simp] lemma on_pure (a) (s) : (pure a : Step σ α).on s = (.ok a, s) := rfl

@[simp] lemma on_get (s) : (get : Step σ σ).on s = (.ok s, s) := rfl

@[simp] lemma on_set (s t) : (set t : Step σ PUnit).on s = (.ok ⟨⟩, t) := rfl

@[simp] lemma on_modify (f) (s) : (modify f : Step σ PUnit).on s = (.ok ⟨⟩, f s) := rfl

@[simp] lemma on_ofExcept (e) (s) : (MonadExcept.ofExcept e : Step σ α).on s = (e, s) := by
  cases e <;> rfl

lemma on_bind (x) (f : α → Step σ β) (s) : (x >>= f).on s = match x.on s with
      | (.ok a, t) => (f a).on t
      | (.error e, t) => (.error e, t) := by
  show (ExceptT.bindCont f (x s).1) (x s).2 = _
  unfold on ExceptT.run
  rcases x s with ⟨a | e, t⟩ <;> rfl

variable {s t u : σ} {x : Step σ α}

lemma on_bind_ok (h : x.on s = (.ok a, t)) (f : α → Step σ β) : (x >>= f).on s = (f a).on t := by
  rw [on_bind, h]

lemma on_get_bind (f : σ → Step σ β) (s) : (get >>= f).on s = (f s).on s := on_bind_ok (on_get s) f

lemma on_bind_error (h : x.on s = (.error e, t)) (f : α → Step σ β) : (x >>= f).on s = (.error e, t) := by
  rw [on_bind, h]

variable {f : α → Step σ β}

/-- A step of two parts has a result when both have one. -/
lemma on_bind_eq_ok (h : (x >>= f).on s = (.ok b, u)) : ∃ a t, x.on s = (.ok a, t) ∧ (f a).on t = (.ok b, u) := by
  rw [on_bind] at h
  rcases hx : x.on s with ⟨e | a, t⟩
  · rw [hx] at h
    cases h
  · rw [hx] at h
    exact ⟨a, t, rfl, h⟩

/-- A step that begins with a computation has a result only if the computation has one. -/
lemma on_ofExcept_bind {e} (h : (MonadExcept.ofExcept e >>= f).on s = (.ok b, u)) :
    ∃ a, e = .ok a ∧ (f a).on s = (.ok b, u) := by
  cases e with
  | ok a => exact ⟨a, rfl, h⟩
  | error _ => cases h

lemma on_bind_iff : (x >>= f).on s = (.ok b, u) ↔ ∃ a t, x.on s = (.ok a, t) ∧ (f a).on t = (.ok b, u) := by
  refine ⟨on_bind_eq_ok, ?_⟩
  rintro ⟨a, t, hx, hf⟩
  rwa [on_bind_ok hx]

lemma on_mapM_cons {bs} (h : ((a :: l).mapM f).on s = (.ok bs, u)) :
    ∃ b t bs', (f a).on s = (.ok b, t) ∧ (l.mapM f).on t = (.ok bs', u) ∧ bs = b :: bs' := by
  rw [mapM_cons] at h
  obtain ⟨b, t, ha, h⟩ := on_bind_eq_ok h
  obtain ⟨bs', v, hl, h⟩ := on_bind_eq_ok h
  cases h
  exact ⟨b, t, bs', ha, hl, rfl⟩

lemma on_repeated (pass : Nat → Step σ (Option Nat)) (s) :
    (repeated pass).on s = (loop pass 0 s).getD (.error .unfinished, s) := rfl

lemma on_forM_ok {f : α → Step σ PUnit} (h : ∀ a s, ∃ t, (f a).on s = (.ok ⟨⟩, t)) (l : List α) (s) :
    ∃ t, (l.forM f).on s = (.ok ⟨⟩, t) := by
  induction l generalizing s with
  | nil => exact ⟨s, rfl⟩
  | cons a l ih =>
    obtain ⟨t, ht⟩ := h a s
    obtain ⟨u, hu⟩ := ih t
    exact ⟨u, (on_bind_ok ht fun _ => l.forM f).trans hu⟩

/-- A row of steps that leave the state alone. -/
lemma on_forM_same {f : α → Step σ PUnit} (h : ∀ a ∈ l, (f a).on s = (.ok ⟨⟩, s)) :
    (l.forM f).on s = (.ok ⟨⟩, s) := by
  induction l with
  | nil => rfl
  | cons a l ih =>
    obtain ⟨ha, hl⟩ := List.forall_mem_cons.1 h
    exact (on_bind_ok ha fun _ => l.forM f).trans (ih hl)

lemma on_forIn (f : α → Step σ PUnit) (l : List α) (s) :
    (forIn l PUnit.unit fun a _ => do f a; pure (ForInStep.yield PUnit.unit)).on s = (l.forM f).on s := by
  induction l generalizing s with
  | nil => rfl
  | cons a l ih =>
    rw [forIn_cons, bind_assoc]
    show (f a >>= _).on s = (f a >>= fun _ => l.forM f).on s
    rw [on_bind, on_bind]
    split
    · exact ih _
    · rfl

/-- A fold of steps that have results and leave the state alone. -/
lemma on_foldlM_pure {f : β → α → Step σ β} {g}
    (h : ∀ b, ∀ a ∈ l, (f b a).on s = (.ok (g b a), s)) (b) : (l.foldlM f b).on s = (.ok (l.foldl g b), s) := by
  induction l generalizing b with
  | nil => rfl
  | cons a l ih =>
    rw [foldlM_cons, on_bind_ok (h b a (.head _))]
    exact ih (fun b a ha => h b a (.tail _ ha)) _

/-- Steps that have results and leave the state alone, for each of a list. -/
lemma on_mapM_pure {g} (h : ∀ a ∈ l, (f a).on s = (.ok (g a), s)) : (l.mapM f).on s = (.ok (l.map g), s) := by
  induction l with
  | nil => rfl
  | cons a l ih =>
    rw [mapM_cons, on_bind_ok (h a (.head _)), on_bind_ok (ih fun a ha => h a (.tail _ ha))]
    rfl

/-- Questions that leave the state alone, for each of a list. -/
lemma on_mapM_except (h : ∀ a ∈ l, (f a).on s = (g a, s)) : (l.mapM f).on s = (l.mapM g, s) := by
  induction l with
  | nil => rfl
  | cons a l ih =>
    obtain ⟨ha, hl⟩ := forall_mem_cons.1 h
    rw [mapM_cons, mapM_cons]
    cases hg : g a with
    | error e => exact on_bind_error (ha.trans (by rw [hg])) _
    | ok b =>
      rw [on_bind_ok (ha.trans (by rw [hg]))]
      cases hgs : l.mapM g with
      | error e => exact on_bind_error ((ih hl).trans (by rw [hgs])) _
      | ok bs => exact on_bind_ok ((ih hl).trans (by rw [hgs])) _

lemma on_forM_read {f : α → Step σ PUnit} {put : β → σ → σ}
    (hok : ∀ a ∈ l, ∀ s b, g a = .ok b → (f a).on s = (.ok ⟨⟩, put b s))
    (hfail : ∀ a ∈ l, ∀ s e, g a = .error e → ∃ t, (f a).on s = (.error e, t)) {s t} :
    (l.forM f).on s = (.ok ⟨⟩, t) ↔ ∃ bs, l.mapM g = .ok bs ∧ t = bs.foldl (fun s b => put b s) s := by
  induction l generalizing s with
  | nil =>
    constructor
    · intro hrun
      cases hrun
      exact ⟨[], rfl, rfl⟩
    · rintro ⟨bs, hbs, rfl⟩
      cases hbs
      rfl
  | cons a l ih =>
    obtain ⟨haok, hlok⟩ := forall_mem_cons.1 hok
    obtain ⟨hafail, hlfail⟩ := forall_mem_cons.1 hfail
    have first : ((a :: l).forM f).on s = (f a >>= fun _ => l.forM f).on s := rfl
    rw [first, mapM_cons]
    cases hg : g a with
    | error e =>
      obtain ⟨u, hu⟩ := hafail s e hg
      rw [on_bind_error hu]
      exact ⟨fun hrun => (by cases hrun), fun ⟨_, hbs, _⟩ => (by cases hbs)⟩
    | ok b =>
      rw [on_bind_ok (haok s b hg), ih hlok hlfail]
      constructor
      · rintro ⟨bs, hbs, rfl⟩
        exact ⟨b :: bs, by rw [hbs]; rfl, rfl⟩
      · rintro ⟨_, hbs, rfl⟩
        rw [ok_bind] at hbs
        obtain ⟨bs, hrest, heq⟩ := bind_eq_ok.1 hbs
        cases heq
        exact ⟨bs, hrest, rfl⟩

lemma on_forM_reaches {f : α → Step σ PUnit} (Inv : List α → σ → Prop)
    (hstep : ∀ {done a s}, a ∈ l → Inv done s → ∃ t, (f a).on s = (.ok ⟨⟩, t) ∧ Inv (done ++ [a]) t) {s}
    (h : Inv [] s) : ∃ t, (l.forM f).on s = (.ok ⟨⟩, t) ∧ Inv l t := by
  have rest done todo (hl : ∀ a ∈ todo, a ∈ l) {s} (hs : Inv done s) :
      ∃ t, (todo.forM f).on s = (.ok ⟨⟩, t) ∧ Inv (done ++ todo) t := by
    induction todo generalizing done s with
    | nil => exact ⟨s, rfl, by simpa using hs⟩
    | cons a todo ih =>
      obtain ⟨t, ht, hdone⟩ := hstep (hl a (.head _)) hs
      obtain ⟨u, hu, hall⟩ := ih (done ++ [a]) (fun x hx => hl x (.tail _ hx)) hdone
      rw [append_assoc] at hall
      exact ⟨u, (on_bind_ok ht fun _ => todo.forM f).trans hu, hall⟩
  exact rest [] l (fun _ h => h) h

/-- What a fold of steps has done: it holds of the part that is done before every step, and of all in the
end. -/
lemma on_foldlM_invariant {f : β → α → Step σ β} {l} (Inv : List α → β → σ → Prop)
    (hstep : ∀ {done a todo b b' s t}, l = done ++ a :: todo → Inv done b s → (f b a).on s = (.ok b', t) →
      Inv (done ++ [a]) b' t) {b b'} (h : Inv [] b s) (hrun : (l.foldlM f b).on s = (.ok b', t)) :
    Inv l b' t := by
  have rest done todo (hl : l = done ++ todo) {b} {s} (hs : Inv done b s)
      (hrun : (todo.foldlM f b).on s = (.ok b', t)) : Inv l b' t := by
    induction todo generalizing done b s with
    | nil =>
      obtain rfl : l = done := by simpa using hl
      cases hrun
      exact hs
    | cons a todo ih =>
      obtain ⟨c, u, ha, hrun⟩ := on_bind_eq_ok hrun
      exact ih (done ++ [a]) (by simpa using hl) (hstep hl hs ha) hrun
  exact rest [] l rfl h hrun

lemma on_forM_invariant {f : α → Step σ PUnit} {l} (Inv : List α → σ → Prop)
    (hstep : ∀ {done a todo s t}, l = done ++ a :: todo → Inv done s → (f a).on s = (.ok ⟨⟩, t) →
      Inv (done ++ [a]) t) (h : Inv [] s) (hrun : (l.forM f).on s = (.ok ⟨⟩, t)) : Inv l t := by
  have fold (l : List α) : l.forM f = l.foldlM (fun _ a => f a) ⟨⟩ := by
    induction l with
    | nil => rfl
    | cons a l ih => exact congrArg (f a >>= fun _ => ·) ih
  rw [fold] at hrun
  exact on_foldlM_invariant (fun done _ => Inv done) hstep h hrun

/-- Steps for all of a list that leave the state alone have each had their result in it. -/
lemma on_mapM_forall₂ (hf : ∀ {a s t b}, (f a).on s = (.ok b, t) → t = s) {l}
    {bs} (h : (l.mapM f).on s = (.ok bs, t)) :
    t = s ∧ Forall₂ (fun a b => (f a).on s = (.ok b, s)) l bs := by
  induction l generalizing bs with
  | nil =>
    cases h
    exact ⟨rfl, .nil⟩
  | cons a l ih =>
    obtain ⟨b, u, bs, ha, hl, rfl⟩ := on_mapM_cons h
    obtain rfl := hf ha
    obtain ⟨rfl, hbs⟩ := ih hl
    exact ⟨rfl, .cons ha hbs⟩

/-! ### What a step keeps -/

/-- However the step ends, the state after it stands in the relation to the state before. -/
def Keeps (R : σ → σ → Prop) (x : Step σ α) : Prop := ∀ s, R s (x.on s).2

namespace Keeps
variable {R : σ → σ → Prop} [Std.Refl R]

@[grind ←] lemma pure (a) : Keeps R (pure a : Step σ α) := Std.Refl.refl

@[grind ←] lemma throw (f) : Keeps R (throw f : Step σ α) := Std.Refl.refl

@[grind ←] lemma get : Keeps R (get : Step σ σ) := Std.Refl.refl

@[grind ←] lemma ofExcept (e) : Keeps R (MonadExcept.ofExcept e : Step σ α) := by
  intro s
  rw [on_ofExcept]
  exact Std.Refl.refl s

omit [Std.Refl R] in
lemma modify {f : σ → σ} (h : ∀ s, R s (f s)) : Keeps R (modify f : Step σ PUnit) := h

omit [Std.Refl R] in
@[grind ←] lemma bind [Trans R R R] (hx : Keeps R x) (hf : ∀ a, Keeps R (f a)) : Keeps R (x >>= f) := by
  intro s
  have h := hx s
  rw [on_bind]
  rcases hs : x.on s with ⟨e | a, t⟩
  · rw [hs] at h
    exact h
  · rw [hs] at h
    exact Trans.trans h (hf a t)

@[grind ←] lemma foldlM [Trans R R R] {f} (l : List α) (b : β) (h : ∀ b a, Keeps R (f b a)) :
    Keeps R (l.foldlM f b) := by
  induction l generalizing b with
  | nil => exact pure _
  | cons a l ih =>
    exact bind (h b a) ih

@[grind ←] lemma forM [Trans R R R] {f} (l : List α) (h : ∀ a ∈ l, Keeps R (f a)) : Keeps R (l.forM f) := by
  induction l with
  | nil => exact pure _
  | cons a l ih =>
    exact bind (h a (.head _)) fun _ => ih fun b hb => h b (.tail _ hb)

@[grind ←] lemma mapM [Trans R R R] (l : List α) (h : ∀ a ∈ l, Keeps R (f a)) : Keeps R (l.mapM f) := by
  induction l with
  | nil => exact pure _
  | cons a l ih =>
    rw [mapM_cons]
    refine bind (h a (.head _)) fun _ => bind ?_ fun _ => pure _
    exact ih fun b hb => h b (.tail _ hb)

@[grind ←] lemma forIn [Trans R R R] {f} (l : List α) (b : β)
    (h : ∀ a ∈ l, ∀ b, Keeps R (f a b)) : Keeps R (forIn l b f) := by
  induction l generalizing b with
  | nil => exact pure _
  | cons a l ih =>
    rw [forIn_cons]
    refine bind (h a (.head _) b) fun r => ?_
    cases r with
    | done b => exact pure _
    | yield b => exact ih b fun a ha => h a (.tail _ ha)

omit [Std.Refl R] in
lemma of_on (h : Keeps R x) {r : Except Fault α} (hx : x.on s = (r, t)) : R s t := by
  have := h s
  rwa [hx] at this

omit [Std.Refl R] in
lemma after [Trans R R R] (h : Keeps R x) (hs : R u s) {r : Except Fault α} (hx : x.on s = (r, t)) : R u t :=
  Trans.trans hs (h.of_on hx)

/-- Where steps for all of a list have results, each had its own between states in the relation. -/
lemma on_mapM [Trans R R R] (hf : ∀ a, Keeps R (f a)) {l} {bs}
    (hrun : (l.mapM f).on s = (.ok bs, t)) :
    Forall₂ (fun a b => ∃ s' t', R s s' ∧ (f a).on s' = (.ok b, t') ∧ R t' t) l bs := by
  induction l generalizing s bs with
  | nil =>
    cases hrun
    exact .nil
  | cons a l ih =>
    obtain ⟨b, u, bs, ha, hl, rfl⟩ := on_mapM_cons hrun
    refine .cons ⟨s, u, Std.Refl.refl s, ha, (mapM l fun a _ => hf a).of_on hl⟩ ((ih hl).imp ?_)
    rintro x y ⟨s', t', hs', hx, ht'⟩
    exact ⟨s', t', Trans.trans ((hf a).of_on ha) hs', hx, ht'⟩

lemma on_foldlM_mem [Trans R R R] {f : β → α → Step σ β} (hf : ∀ b a, Keeps R (f b a)) {b b'}
    (hrun : (l.foldlM f b).on s = (.ok b', t)) {a} (ha : a ∈ l) :
    ∃ c s' c' t', R s s' ∧ (f c a).on s' = (.ok c', t') := by
  induction l generalizing s b with
  | nil => cases ha
  | cons x l ih =>
    obtain ⟨c, u, hx, hrun⟩ := on_bind_eq_ok hrun
    rcases mem_cons.1 ha with rfl | ha
    · exact ⟨b, s, c, u, Std.Refl.refl s, hx⟩
    · obtain ⟨c, s', c', t', hs', ha⟩ := ih hrun ha
      exact ⟨c, s', c', t', Trans.trans ((hf b x).of_on hx) hs', ha⟩

end Keeps

/-! ### Loops -/

variable {pass : Nat → Step σ (Option Nat)}

lemma loop_next (h : (pass n).on s = (.ok (some m), t)) : loop pass n s = loop pass m t := by
  rw [loop, h]

lemma loop_stop (h : (pass n).on s = (.ok none, t)) : loop pass n s = some (.ok (), t) := by
  rw [loop, h]

lemma loop_fail {f} (h : (pass n).on s = (.error f, t)) : loop pass n s = some (.error f, t) := by
  rw [loop, h]

variable (pass) in
/-- Where a loop stands after so many passes: a place and a state, nothing if it has ended. -/
def after : Nat → Nat → σ → Option (Nat × σ)
  | 0, n, s => some (n, s)
  | k + 1, n, s =>
    match (pass n).on s with
    | (.ok (some m), t) => after k m t
    | _ => none

lemma after_next (h : (pass n).on s = (.ok (some m), t)) : after pass (k + 1) n s = after pass k m t := by
  rw [after, h]

lemma after_add (j k n) (s) :
    after pass (j + k) n s = (after pass j n s).bind fun p => after pass k p.1 p.2 := by
  induction j generalizing n s with
  | zero => simp [after]
  | succ j ih =>
    rw [Nat.add_right_comm, after, after]
    split
    · exact ih _ _
    · rfl

lemma loop_after (h : after pass k n s = some (m, t)) : loop pass n s = loop pass m t := by
  induction k generalizing n s with
  | zero =>
    cases h
    rfl
  | succ k ih =>
    rw [after] at h
    split at h
    · next hp => rw [loop_next hp, ih h]
    · cases h

/-- A loop has no outcome exactly when it stands somewhere after any number of passes. -/
lemma loop_eq_none_iff : loop pass n s = none ↔ ∀ k, (after pass k n s).isSome := by
  constructor
  · intro h k
    induction k generalizing n s with
    | zero => rfl
    | succ k ih =>
      rcases hp : (pass n).on s with ⟨f | _ | m, t⟩
      · rw [loop_fail hp] at h
        cases h
      · rw [loop_stop hp] at h
        cases h
      · rw [loop_next hp] at h
        rw [after_next hp]
        exact ih h
  · intro h
    cases hl : loop pass n s with
    | none => rfl
    | some r =>
      have ended : ∃ k, after pass k n s = none := by
        refine Pass.loop.partial_correctness pass (fun n s _ => ∃ k, after pass k n s = none) ?_ n s r hl
        intro loop ih n s r h
        split at h
        · next m t hp =>
          obtain ⟨k, hk⟩ := ih _ _ _ h
          exact ⟨k + 1, by rw [after_next hp, hk]⟩
        · next t hp => exact ⟨1, by rw [after, hp]⟩
        · next f t hp => exact ⟨1, by rw [after, hp]⟩
      obtain ⟨k, hk⟩ := ended
      have := h k
      rw [hk] at this
      cases this

section Invariant
variable (Inv : Nat → σ → Prop)

/-- A loop ends if every pass makes a measure smaller. -/
lemma loop_ends (size : Nat → σ → Nat)
    (hpass : ∀ {n m s t}, Inv n s → (pass n).on s = (.ok (some m), t) → Inv m t ∧ size m t < size n s)
    (h : Inv n s) : ∃ r, loop pass n s = some r := by
  induction hk : size n s using Nat.strongRecOn generalizing n s with
  | _ k ih =>
    rcases hp : (pass n).on s with ⟨f | _ | m, t⟩
    · exact ⟨_, loop_fail hp⟩
    · exact ⟨_, loop_stop hp⟩
    · obtain ⟨hm, hlt⟩ := hpass h hp
      rw [loop_next hp]
      exact ih _ (hk ▸ hlt) hm rfl

section
variable (hpass : ∀ {n m s t}, Inv n s → (pass n).on s = (.ok (some m), t) → Inv m t) (h : Inv n s)
include hpass h

/-- Where a loop ends, its invariant holds before the last pass. -/
lemma loop_invariant {r} (hl : loop pass n s = some (r, t)) :
    ∃ m u, Inv m u ∧ ((pass m).on u = (.ok none, t) ∧ r = .ok () ∨
      ∃ f, (pass m).on u = (.error f, t) ∧ r = .error f) := by
  refine Pass.loop.partial_correctness pass (fun n s p => Inv n s → ∃ m u, Inv m u ∧
    ((pass m).on u = (.ok none, p.2) ∧ p.1 = .ok () ∨
      ∃ f, (pass m).on u = (.error f, p.2) ∧ p.1 = .error f)) ?_ n s (r, t) hl h
  intro loop ih n s p hp h
  split at hp
  · next m t hm => exact ih _ _ _ hp (hpass h hm)
  · next t hm =>
    cases hp
    exact ⟨n, s, h, .inl ⟨hm, rfl⟩⟩
  · next f t hm =>
    cases hp
    exact ⟨n, s, h, .inr ⟨f, hm, rfl⟩⟩

lemma after_invariant (hk : after pass k n s = some (m, t)) : Inv m t := by
  induction k generalizing n s with
  | zero =>
    cases hk
    exact h
  | succ k ih =>
    rw [after] at hk
    split at hk
    · next hp => exact ih (hpass h hp) hk
    · cases hk

/-- Where every pass but some makes a measure smaller, a loop ends exactly when those passes stop. -/
lemma loop_ends_iff (size : Nat → σ → Nat) (Stall : Nat → σ → Prop)
    (hsize : ∀ {n m s t}, Inv n s → (pass n).on s = (.ok (some m), t) → ¬Stall n s → size m t < size n s) :
    (loop pass n s).isSome ↔
      ∃ bound, ∀ k ≥ bound, ∀ m t, after pass k n s = some (m, t) → ¬Stall m t := by
  constructor
  · intro hends
    have : ¬∀ k, (after pass k n s).isSome := by
      rw [← loop_eq_none_iff]
      intro hnone
      rw [hnone] at hends
      cases hends
    obtain ⟨bound, hbound⟩ := Classical.not_forall.1 this
    refine ⟨bound, fun k hk m t ht => ?_⟩
    obtain ⟨j, rfl⟩ := Nat.exists_eq_add_of_le hk
    rw [after_add, Option.not_isSome_iff_eq_none.1 hbound] at ht
    cases ht
  · rintro ⟨bound, hbound⟩
    cases hafter : after pass bound n s with
    | none =>
      cases hl : loop pass n s with
      | some r => rfl
      | none =>
        have := loop_eq_none_iff.1 hl bound
        rw [hafter] at this
        cases this
    | some p =>
      obtain ⟨m, t⟩ := p
      rw [loop_after hafter]
      -- From there on no pass stalls, so the measure bounds the passes that are left.
      let Clear (m : Nat) (t : σ) : Prop :=
        Inv m t ∧ ∀ k m' t', after pass k m t = some (m', t') → ¬Stall m' t'
      have start : Clear m t := by
        refine ⟨after_invariant Inv hpass h hafter, fun k m' t' hk => ?_⟩
        refine hbound (bound + k) (Nat.le_add_right _ _) m' t' ?_
        rwa [after_add, hafter]
      have clear {n m s t} (hn : Clear n s) (hp : (pass n).on s = (.ok (some m), t)) :
          Clear m t ∧ size m t < size n s := by
        refine ⟨⟨hpass hn.1 hp, fun k m' t' hk => hn.2 (k + 1) m' t' ?_⟩, hsize hn.1 hp (hn.2 0 n s rfl)⟩
        rwa [after_next hp]
      obtain ⟨r, hr⟩ := loop_ends Clear size clear start
      rw [hr]
      rfl

end

/-- A loop never ends if every pass leads to another one. -/
lemma loop_endless (hpass : ∀ {n s}, Inv n s → ∃ m t, (pass n).on s = (.ok (some m), t) ∧ Inv m t)
    (h : Inv n s) : loop pass n s = none := by
  rw [loop_eq_none_iff]
  intro k
  induction k generalizing n s with
  | zero => rfl
  | succ k ih =>
    obtain ⟨m, t, hp, hm⟩ := hpass h
    rw [after_next hp]
    exact ih hm

end Invariant
end Step
end GlyphRules
