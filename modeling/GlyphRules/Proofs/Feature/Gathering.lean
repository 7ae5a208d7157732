import Mathlib.Order.Nat
import GlyphRules.Feature.Gather
import GlyphRules.Proofs.Dict
import GlyphRules.Proofs.Book.Resolve

/-! Gathering rules, event by event.

Each step of `Gathering.step` either changes which routines are in force, opens a routine or
puts rules in the open one (`Does`). What was gathered before stays (`Adds`). -/
namespace GlyphRules.Feature

open Step List Book Dict Option

variable {s t : Gathering} {i : RoutineId} {features : List (String × List Lookup)} {value : Int}
variable {l l' all kept : List RuleBody}

/-! ### Books that are added to -/

/-- Plain routines, each rule in one of them, and in each the rules in the order they came. -/
structure Apart (b : Book) : Prop where
  nodup : b.order.Nodup
  order : ∀ i ∈ b.order, i < b.routines.size
  content : ∀ j, (b.routine j).content = .rules (b.ruleIds j)
  sorted : ∀ j, (b.ruleIds j).Pairwise (· < ·)
  within : ∀ j, ∀ id ∈ b.ruleIds j, id < b.rules.size
  apart : ∀ {j k id}, id ∈ b.ruleIds j → id ∈ b.ruleIds k → j = k

/-- What is kept of a book: its rules as they are and where they are, and a routine in force
that has rules. What is not in force does not come in force. -/
structure Adds (b b' : Book) : Prop where
  routines : b.routines.size ≤ b'.routines.size
  rules : b.rules.size ≤ b'.rules.size
  body : ∀ id < b.rules.size, (b'.rule id).body = (b.rule id).body
  ruleIds : ∀ j, ∀ id < b.rules.size, id ∈ b'.ruleIds j ↔ id ∈ b.ruleIds j
  kept : ∀ j ∈ b.order, ∀ id ∈ b.ruleIds j, id < b.rules.size → j ∈ b'.order
  gone : ∀ j < b.routines.size, j ∉ b.order → j ∉ b'.order

lemma Adds.refl (b) : Adds b b :=
  ⟨le_rfl, le_rfl, fun _ _ => rfl, fun _ _ _ => Iff.rfl, fun _ hj _ _ _ => hj, fun _ _ hj => hj⟩

lemma Adds.trans (h : Adds b b') (h' : Adds b' b'') : Adds b b'' where
  routines := h.routines.trans h'.routines
  rules := h.rules.trans h'.rules
  body id hid := (h'.body id (hid.trans_le h.rules)).trans (h.body id hid)
  ruleIds j id hid := (h'.ruleIds j id (hid.trans_le h.rules)).trans (h.ruleIds j id hid)
  kept j hj id hid hlt :=
    h'.kept j (h.kept j hj id hid hlt) id ((h.ruleIds j id hlt).2 hid) (hlt.trans_le h.rules)
  gone j hlt hj := h'.gone j (hlt.trans_le h.routines) (h.gone j hlt hj)

structure Alike (b b' : Book) : Prop where
  routines : b.routines.size ≤ b'.routines.size
  rules : b'.rules.size = b.rules.size
  content : ∀ j, (b'.routine j).content = (b.routine j).content
  body : ∀ id, (b'.rule id).body = (b.rule id).body

namespace Alike
variable {b b' b'' : Book}

lemma refl (b) : Alike b b := ⟨le_rfl, rfl, fun _ => rfl, fun _ => rfl⟩

lemma trans (h : Alike b b') (h' : Alike b' b'') : Alike b b'' :=
  ⟨h.routines.trans h'.routines, h'.rules.trans h.rules, fun j => (h'.content j).trans (h.content j),
    fun id => (h'.body id).trans (h.body id)⟩

lemma ruleIds (h : Alike b b') (hb : Apart b) (j) : b'.ruleIds j = b.ruleIds j :=
  ruleIds_rules ((h.content j).trans (hb.content j))

/-- Only new routines come in force, and only routines without rules go out. -/
lemma adds (h : Alike b b') (hb : Apart b) (hnodup : b'.order.Nodup)
    (horder : ∀ i ∈ b'.order, i ∈ b.order ∨ b.routines.size ≤ i ∧ i < b'.routines.size)
    (hkept : ∀ i ∈ b.order, b.ruleIds i ≠ [] → i ∈ b'.order) : Apart b' ∧ Adds b b' := by
  have ids := h.ruleIds hb
  refine ⟨⟨hnodup, fun i hi => ?_, fun j => ?_, fun j => ids j ▸ hb.sorted j, fun j => ?_, fun {j k id} hj hk => ?_⟩,
    ⟨h.routines, h.rules.ge, fun id _ => h.body id, fun j id _ => by rw [ids], fun j hj id hid _ => ?_,
      fun j hlt hj hj' => ?_⟩⟩
  · rcases horder i hi with hi | hi
    · exact (hb.order i hi).trans_le h.routines
    · exact hi.2
  · rw [h.content, hb.content, ids]
  · rw [ids, h.rules]
    exact hb.within j
  · rw [ids] at hj hk
    exact hb.apart hj hk
  · exact hkept j hj (ne_nil_of_mem hid)
  · rcases horder j hj' with hin | hle
    · exact hj hin
    · exact Nat.not_lt_of_le hle.1 hlt

end Alike

lemma alike_addRoutine (b) {r} (hr : r.content = .rules []) : Alike b (b.addRoutine r).2 := by
  refine ⟨by simp [addRoutine], rfl, fun j => ?_, fun _ => rfl⟩
  rw [b.routine_addRoutine]
  split
  · next hj => rw [hr, routine_of_size_le hj.ge]
  · rfl

def CallAdded (tag : String) (i : RoutineId) (features features' : List (String × List Lookup)) : Prop :=
  ∃ r : Reference, r.routine = some i ∧ ∀ tag', Dict.get? features' tag' =
    if tag' = tag then some ((Dict.get? features tag).getD [] ++ [.ref r]) else Dict.get? features tag'

structure CallMade (tag : String) (i : RoutineId) (b b' : Book) : Prop extends Alike b b' where
  size : b'.routines.size = b.routines.size
  nodup : b.order.Nodup → b'.order.Nodup
  order : ∀ j, j ∈ b'.order ↔ j ∈ b.order ∨ j = i
  added : CallAdded tag i b.features b'.features

lemma callMade_addFeature (hi : i < b.routines.size) (tag) :
    CallMade tag i b (b.addFeature tag [.bare i]) := by
  let known : Book := { b with features := alter b.features tag [] id }
  obtain ⟨referred, -, -⟩ := referTo_spec (b := known) hi
  have features : (known.referTo i).2.features = known.features := (congrArg (·.features) referred.rest)
  have last : (b.addFeature tag [.bare i]).features =
    alter (known.referTo i).2.features tag [] (· ++ [.ref (known.referTo i).1]) := rfl
  refine ⟨⟨referred.size.ge, congrArg Array.size referred.rules, fun j => congrArg (·.content) (referred.routine j),
    fun id => congrArg (·.body) (referred.rule id)⟩, referred.size, referred.order.nodup, fun j => mem_enforce,
    (known.referTo i).1, rfl, fun tag' => ?_⟩
  rw [last, features, get?_alter, get?_alter, get?_alter]
  by_cases htag : tag' = tag <;> simp [htag]

/-! ### One rule after the other -/

namespace Gathering

structure Puts (s t : Gathering) (l : List RuleBody) : Prop where
  rest : t = { s with book := t.book }
  apart : Apart t.book
  adds : Adds s.book t.book
  routines : t.book.routines.size = s.book.routines.size
  rules : t.book.rules.size = s.book.rules.size + l.length
  order : t.book.order = s.book.order
  features : t.book.features = s.book.features
  bodies : (List.range' s.book.rules.size l.length).map (fun id => (t.book.rule id).body) = l
  own : ∀ i, s.routine = some i → t.book.ruleIds i = s.book.ruleIds i ++ List.range' s.book.rules.size l.length

lemma appendRule_puts (hb : Apart s.book) (hi : i < s.book.routines.size) (hopen : s.routine = some i) (rule) :
    Puts s { s with book := s.book.appendRule i rule } [rule.body] := by
  have content (j) : ((s.book.appendRule i rule).routine j).content =
      .rules (s.book.ruleIds j ++ if j = i then [s.book.rules.size] else []) := by
    have ids : ({ s.book with rules := s.book.rules.push rule }).ruleIds i = s.book.ruleIds i :=
      ruleIds_rules (hb.content i)
    show ((setRules _ i _).routine j).content = _
    unfold setRules
    split
    · next hj =>
      subst hj
      rw [routine_alterRoutine_self (by exact hi), ids]
      exact content_withRules (hb.content j) _
    · next hj =>
      rw [routine_alterRoutine_ne _ hj, append_nil]
      exact hb.content j
  have ruleIds (j) := ruleIds_rules (content j)
  have size : (s.book.appendRule i rule).routines.size = s.book.routines.size := size_alterRoutine ..
  have rules : (s.book.appendRule i rule).rules.size = s.book.rules.size + 1 := Array.size_push ..
  have body (id) : (s.book.appendRule i rule).rule id = if id = s.book.rules.size then rule else s.book.rule id :=
    s.book.rule_addRule rule id
  have mem {j id} : id ∈ (s.book.appendRule i rule).ruleIds j ↔
      id ∈ s.book.ruleIds j ∨ j = i ∧ id = s.book.rules.size := by
    rw [ruleIds]
    split <;> simp_all
  refine ⟨rfl, ⟨hb.nodup, fun j hj => size ▸ hb.order j hj, fun j => by rw [content, ruleIds], fun j => ?_,
      fun j id hid => ?_, fun {j k id} h h' => ?_⟩,
    ⟨size.ge, (Nat.le_succ _).trans rules.ge, fun id hid => by rw [body, if_neg hid.ne], fun j id hid => ?_,
      fun j hj _ _ _ => hj, fun j _ hj => hj⟩, size, rules, rfl, rfl, ?_, fun j hj => ?_⟩
  · rw [ruleIds, pairwise_append]
    refine ⟨hb.sorted j, by split <;> simp, fun id hid id' hid' => ?_⟩
    split at hid'
    · rw [mem_singleton.1 hid']
      exact hb.within j id hid
    · cases hid'
  · rw [rules]
    rcases mem.1 hid with hid | ⟨-, rfl⟩
    · exact Nat.lt_succ_of_lt (hb.within j id hid)
    · exact Nat.lt_succ_self _
  · rcases mem.1 h with hj | ⟨hj, hid⟩ <;> rcases mem.1 h' with hk | ⟨hk, hid'⟩
    · exact hb.apart hj hk
    · exact absurd (hb.within j id hj) (hid' ▸ Nat.lt_irrefl _)
    · exact absurd (hb.within k id hk) (hid ▸ Nat.lt_irrefl _)
    · exact hj.trans hk.symm
  · rw [mem]
    exact or_iff_left fun h => absurd hid (h.2 ▸ Nat.lt_irrefl _)
  · simp [body]
  · cases hopen.symm.trans hj
    exact (ruleIds i).trans (by rw [if_pos rfl]; rfl)

lemma Puts.trans {s u t} (h : Puts s u l) (h' : Puts u t l') : Puts s t (l ++ l') := by
  have ids : List.range' s.book.rules.size (l ++ l').length =
      List.range' s.book.rules.size l.length ++ List.range' u.book.rules.size l'.length := by
    rw [length_append, h.rules, List.range'_append_1]
  refine ⟨by rw [h'.rest, h.rest], h'.apart, h.adds.trans h'.adds, h'.routines.trans h.routines, ?_,
    h'.order.trans h.order, h'.features.trans h.features, ?_, fun i hi => ?_⟩
  · rw [h'.rules, h.rules, length_append, Nat.add_assoc]
  · have old : (List.range' s.book.rules.size l.length).map (fun id => (t.book.rule id).body) = l := by
      refine (map_congr_left fun id hid => h'.adds.body id ?_).trans h.bodies
      rw [h.rules]
      exact (mem_range'_1.1 hid).2
    rw [ids, map_append, old, h'.bodies]
  · rw [ids, h'.own i (by rwa [h.rest]), h.own i hi, append_assoc]

/-- The open routine is one of the book. -/
def Known (s : Gathering) : Prop := ∀ i, s.routine = some i → i < s.book.routines.size

lemma foldlM_put (hb : Apart s.book) (hopen : s.Known) (h : l.foldlM (put spot) s = .ok t) : Puts s t l := by
  induction l generalizing s with
  | nil =>
    cases h
    exact ⟨rfl, hb, .refl _, rfl, rfl, rfl, rfl, rfl, fun i _ => (append_nil _).symm⟩
  | cons body l ih =>
    obtain ⟨u, hu, h⟩ := bind_eq_ok.1 h
    have first : Puts s u [body] := by
      unfold put at hu
      split at hu
      · next i hi =>
        cases hu
        exact appendRule_puts hb (hopen i hi) hi (s.ruleAt spot body)
      · cases hu
    refine first.trans (ih first.apart (fun i hi => ?_) h)
    rw [first.rest] at hi
    exact first.routines ▸ hopen i hi

/-! ### Routines in and out of force -/

/-- The routines that stay in force when the open one is taken out for having no rules. -/
def inForce (s : Gathering) : List RoutineId :=
  match s.idle? with
  | some (_, i) => s.book.order.erase i
  | none => s.book.order

/-- What features call when the open routine is taken out for having no rules. -/
def dropped (s : Gathering) : Except Fault (List (String × List Lookup)) :=
  match s.idle? with
  | some (feature, _) => dropCall s.book.features feature
  | none => .ok s.book.features

lemma discardEmpty_eq (s : Gathering) : s.discardEmpty =
    s.dropped.map fun features => { s with book := { s.book with order := s.inForce, features } } := by
  unfold discardEmpty dropped inForce
  cases s.idle? with
  | none => rfl
  | some idle =>
    cases dropCall s.book.features idle.1 <;> rfl

lemma idle?_eq_some {feature} : s.idle? = some (feature, i) ↔
    s.feature = some feature ∧ s.routine = some i ∧ s.book.ruleIds i = [] ∧ i ∈ s.book.order := by
  unfold idle?
  cases hf : s.feature with
  | none => simp
  | some f =>
    cases hr : s.routine with
    | none => simp
    | some j =>
      simp only [bind_eq_bind, bind_some, ite_none_right_eq_some, Bool.and_eq_true,
        List.isEmpty_iff, List.contains_iff_mem, Option.some.injEq, Prod.mk.injEq]
      constructor
      · rintro ⟨⟨hids, hin⟩, rfl, rfl⟩
        exact ⟨rfl, rfl, hids, hin⟩
      · rintro ⟨rfl, rfl, hids, hin⟩
        exact ⟨⟨hids, hin⟩, rfl, rfl⟩

lemma mem_inForce (hb : s.book.order.Nodup) {j} :
    j ∈ s.inForce ↔ j ∈ s.book.order ∧ ∀ f, s.idle? ≠ some (f, j) := by
  unfold inForce
  cases h : s.idle? with
  | none => simp
  | some idle =>
    rw [hb.mem_erase_iff, and_comm]
    refine and_congr_right fun _ => ⟨fun hne f hf => hne (congrArg Prod.snd (Option.some.inj hf)).symm, ?_⟩
    rintro hne rfl
    exact hne idle.1 rfl

lemma dropped_of_idle_none (h : s.idle? = none) : s.dropped = .ok s.book.features := by
  rw [dropped, h]

/-- A step that takes out the open routine if it has no rules and puts others in force. -/
structure Turns (s t : Gathering) (more : List RoutineId) : Prop where
  alike : Alike s.book t.book
  nodup : t.book.order.Nodup
  order : ∀ j, j ∈ t.book.order ↔ j ∈ s.inForce ∨ j ∈ more
  more : ∀ j ∈ more, j ∈ s.book.order ∨ s.book.routines.size ≤ j ∧ j < t.book.routines.size

lemma Turns.adds {more} (hb : Apart s.book) (h : Turns s t more) :
    Apart t.book ∧ Adds s.book t.book := by
  refine h.alike.adds hb h.nodup (fun i hi => ?_) fun i hi hids => ?_
  · rcases (h.order i).1 hi with hi | hi
    · exact .inl ((mem_inForce hb.nodup).1 hi).1
    · exact h.more i hi
  · refine (h.order i).2 (.inl ((mem_inForce hb.nodup).2 ⟨hi, fun f hidle => hids ?_⟩))
    exact (idle?_eq_some.1 hidle).2.2.1

def Entered (feature : Option String) (i : RoutineId) (features features' : List (String × List Lookup)) : Prop :=
  match feature with
  | some tag => CallAdded tag i features features'
  | none => features' = features

lemma enter_spec (feature) {b} {r} (hfresh : b.routines.size ∉ b.order)
    (hr : r.content = .rules []) :
    (enter feature b r).1 = b.routines.size ∧ Alike b (enter feature b r).2 ∧
      (enter feature b r).2.routines.size = b.routines.size + 1 ∧
      (b.order.Nodup → (enter feature b r).2.order.Nodup) ∧
      (∀ j, j ∈ (enter feature b r).2.order ↔ j ∈ b.order ∨ j ∈ [b.routines.size]) ∧
      Entered feature b.routines.size b.features (enter feature b r).2.features := by
  have added := alike_addRoutine b hr
  have size : (b.addRoutine r).2.routines.size = b.routines.size + 1 := Array.size_push ..
  cases feature with
  | none =>
    refine ⟨rfl, ⟨added.routines, added.rules, added.content, added.body⟩, size, fun h => ?_, fun j => mem_append, rfl⟩
    exact nodup_append'.2 ⟨h, nodup_singleton _, by simpa using hfresh⟩
  | some tag =>
    have made := callMade_addFeature (Nat.lt_of_lt_of_eq (Nat.lt_succ_self _) size.symm) tag
    exact ⟨rfl, added.trans made.toAlike, made.size.trans size, made.nodup,
      fun j => (made.order j).trans (or_congr_right mem_singleton.symm), made.added⟩

structure Opens (s t : Gathering) (features : List (String × List Lookup)) : Prop
    extends Turns s t [s.book.routines.size] where
  routines : t.book.routines.size = s.book.routines.size + 1
  routine : t.routine = some s.book.routines.size
  feature : t.feature = s.feature
  calls : Entered s.feature s.book.routines.size features t.book.features

lemma nodup_inForce (hb : s.book.order.Nodup) : s.inForce.Nodup := by
  unfold inForce
  split
  · exact hb.erase _
  · exact hb

lemma openRoutine_opens (hb : Apart s.book) (hd : s.dropped = .ok features) (spot) (name) :
    ∃ t, s.openRoutine spot name = .ok t ∧ Opens s t features := by
  have run : s.discardEmpty = .ok { s with book := { s.book with order := s.inForce, features } } := by
    rw [discardEmpty_eq, hd]
    rfl
  have fresh : s.book.routines.size ∉ s.inForce := fun h =>
    Nat.lt_irrefl _ (hb.order _ ((mem_inForce hb.nodup).1 h).1)
  rw [openRoutine, run]
  refine ⟨_, rfl, ?_⟩
  obtain ⟨new, alike, size, nodup, order, calls⟩ := enter_spec s.feature
    (b := { s.book with order := s.inForce, features }) fresh
    (r := { name := some (if (name.getD "").isEmpty then "unnamed_routine_" ++ toString s.unnamed else name.getD ""),
            address := .text spot.text }) rfl
  refine ⟨⟨⟨alike.routines, alike.rules, alike.content, alike.body⟩, nodup (nodup_inForce hb.nodup), order, ?_⟩, size,
    congrArg some new, rfl, calls⟩
  rintro j hj
  cases mem_singleton.1 hj
  exact .inr ⟨le_rfl, Nat.lt_of_lt_of_eq (Nat.lt_succ_self _) (Eq.symm size)⟩

/-- Whether a flag starts a new routine. -/
def turns (s : Gathering) (value : Int) : Bool := !(s.routine.isSome && value == s.flag) && s.feature.isSome

/-- A step that keeps the routines and what is in force. -/
structure Stays (s t : Gathering) : Prop where
  alike : Alike s.book t.book
  routines : t.book.routines.size = s.book.routines.size
  order : t.book.order = s.book.order
  features : t.book.features = s.book.features
  routine : t.routine = s.routine

lemma Stays.adds (hb : Apart s.book) (h : Stays s t) : Apart t.book ∧ Adds s.book t.book :=
  h.alike.adds hb (h.order ▸ hb.nodup) (fun _ hi => .inl (h.order ▸ hi)) fun _ hi _ => h.order ▸ hi

lemma Stays.refl (s) : Stays s s := ⟨.refl _, rfl, rfl, rfl, rfl⟩

lemma flagRules_stays (s) : Stays s s.flagRules ∧ s.flagRules.feature = s.feature := by
  have flagged (ids : List RuleId) (b : Book) :
      let b' := ids.foldl (fun b r => b.alterRule r fun r => { r with flags := .bits s.flag }) b
      b'.routines = b.routines ∧ b'.order = b.order ∧ b'.features = b.features ∧ b'.rules.size = b.rules.size ∧
        ∀ id, (b'.rule id).body = (b.rule id).body := by
    induction ids generalizing b with
    | nil => exact ⟨rfl, rfl, rfl, rfl, fun _ => rfl⟩
    | cons r ids ih =>
      obtain ⟨routines, order, features, rules, body⟩ := ih (b.alterRule r fun r => { r with flags := .bits s.flag })
      refine ⟨routines, order, features, rules.trans Array.size_modify, fun id => (body id).trans ?_⟩
      simp only [rule_eq, alterRule, Array.getElem?_modify]
      split
      · cases b.rules[id]? <;> rfl
      · rfl
  unfold flagRules
  split
  · next i hi =>
    obtain ⟨routines, order, features, rules, body⟩ := flagged (s.book.ruleIds i) s.book
    refine ⟨⟨⟨(congrArg Array.size routines).ge, rules, fun j => ?_, body⟩, congrArg Array.size routines, order,
      features, rfl⟩, rfl⟩
    rw [routine_eq, routine_eq]
    exact congrArg (fun rs : Array Routine => (rs[j]?.getD {}).content) routines
  · exact ⟨.refl s, rfl⟩

lemma Stays.idle? (hb : Apart s.book) (h : Stays s t) (hf : t.feature = s.feature) : t.idle? = s.idle? := by
  refine Option.ext fun idle => ?_
  rw [idle?_eq_some, idle?_eq_some, hf, h.routine, h.order, h.alike.ruleIds hb]

lemma setFlag_stays (h : s.turns value = false) (spot) :
    ∃ t, s.setFlag spot value = .ok t ∧ Stays s t ∧ t.feature = s.feature := by
  unfold setFlag
  split
  · exact ⟨s, rfl, .refl s, rfl⟩
  · next hsame =>
    have hf : s.feature.isSome = false := by simpa [turns, hsame] using h
    rw [hf]
    exact ⟨_, rfl, ⟨.refl _, rfl, rfl, rfl, rfl⟩, rfl⟩

lemma setFlag_of_turns (h : s.turns value) (spot) :
    s.setFlag spot value = s.flagRules.openRoutine spot none >>= fun t => .ok { t with flag := value } := by
  rw [turns, Bool.and_eq_true, Bool.not_eq_true'] at h
  rw [setFlag, h.1, h.2]
  rfl

lemma setFlag_opens (hb : Apart s.book) (hd : s.dropped = .ok features) (h : s.turns value) (spot) :
    ∃ t, s.setFlag spot value = .ok t ∧ Opens s t features := by
  obtain ⟨flagged, hf⟩ := s.flagRules_stays
  have idle := flagged.idle? hb hf
  have inForce : s.flagRules.inForce = s.inForce := by
    unfold Gathering.inForce
    rw [idle, flagged.order]
  have dropped : s.flagRules.dropped = .ok features := by
    unfold Gathering.dropped at hd ⊢
    rw [idle, flagged.features, hd]
  obtain ⟨t, ht, opened⟩ := openRoutine_opens (flagged.adds hb).1 dropped spot none
  refine ⟨{ t with flag := value }, by rw [setFlag_of_turns h, ht]; rfl, ?_⟩
  have order := opened.order
  have calls := opened.calls
  have more := opened.more
  rw [inForce, flagged.routines] at order
  rw [hf, flagged.routines] at calls
  rw [flagged.routines, flagged.order] at more
  exact ⟨⟨flagged.alike.trans opened.alike, opened.nodup, order, more⟩, opened.routines.trans (by rw [flagged.routines]),
    opened.routine.trans (by rw [flagged.routines]), opened.feature.trans hf, calls⟩

structure Calls (s t : Gathering) (features : List (String × List Lookup)) (tag : String) (i : RoutineId) : Prop
    extends Turns s t [i] where
  known : i ∈ s.book.order
  routines : t.book.routines.size = s.book.routines.size
  routine : t.routine = s.routine
  feature : t.feature = s.feature
  calls : CallAdded tag i features t.book.features

lemma mem_of_named {name} (h : named b name = .ok i) : i ∈ b.order := by
  unfold named at h
  split at h
  · next j hj =>
    cases h
    exact mem_of_find?_eq_some hj
  · cases h

lemma callLookup_calls (hb : Apart s.book) (hd : s.dropped = .ok features) {tag name}
    (hf : s.feature = some tag) (hi : named s.book name = .ok i) :
    ∃ t, s.callLookup name = .ok t ∧ Calls s t features tag i := by
  let b : Book := { s.book with order := s.inForce, features }
  have run : s.callLookup name = .ok { s with book := b.addFeature tag [.bare i] } := by
    rw [callLookup, hi, discardEmpty_eq, hd, hf]
    rfl
  have made := callMade_addFeature (b := b) (hb.order i (mem_of_named hi)) tag
  refine ⟨_, run, ⟨⟨made.routines, made.rules, made.content, made.body⟩, made.nodup (nodup_inForce hb.nodup),
    fun j => (made.order j).trans (or_congr_right mem_singleton.symm), fun j hj => ?_⟩,
    mem_of_named hi, made.size, rfl, rfl, made.added⟩
  rw [mem_singleton.1 hj]
  exact .inl (mem_of_named hi)

structure Closes (s t : Gathering) (features : List (String × List Lookup)) : Prop extends Turns s t [] where
  routines : t.book.routines.size = s.book.routines.size
  routine : t.routine = none
  feature : t.feature = none
  features : t.book.features = features

lemma closeFeature_closes (hb : Apart s.book) (hd : s.dropped = .ok features) :
    ∃ t, s.closeFeature = .ok t ∧ Closes s t features := by
  let u : Gathering :=
    { s with book := { s.book with order := s.inForce, features }, feature := none, system := none }
  obtain ⟨flagged, hf⟩ := u.flagRules_stays
  have run : s.closeFeature = .ok { u.flagRules with routine := none } := by
    rw [closeFeature, discardEmpty_eq, hd]
    rfl
  refine ⟨_, run, ⟨⟨flagged.alike.routines, flagged.alike.rules, flagged.alike.content, flagged.alike.body⟩, ?_,
    fun j => ?_, fun j hj => by cases hj⟩, flagged.routines, rfl, hf, flagged.features⟩
  · exact flagged.order ▸ nodup_inForce hb.nodup
  · rw [show ({ u.flagRules with routine := none } : Gathering).book.order = s.inForce from flagged.order]
    simp

/-! ### Entries that give rules -/

/-- The rules that an entry stands for. -/
def said (spot : Spot) (entry : RuleEntry) (s : Gathering) : Except Fault (List RuleBody) := do
  let s ← s.openFor spot entry
  bodies s.marks s.book entry

lemma bodies_of_isVoid {marks} {entry} (h : isVoid marks entry)
    (b) : bodies marks b entry = .ok [] := by
  cases entry with
  | multiple c new _ =>
    have none : ((c.glyphs.map fun g => g.members marks).headD []) = [] := by
      cases hc : c.glyphs with
      | nil => rfl
      | cons g gs => simpa [isVoid, hc] using h
    simp only [bodies, none]
    rfl
  | _ => cases h

lemma openFor_spec (hb : Apart s.book) (spot) (entry) : ∃ o, s.openFor spot entry = .ok o ∧
      (o = s ∧ (s.routine = none → isVoid s.marks entry) ∨ s.routine = none ∧ Opens s o s.book.features) := by
  unfold openFor
  split
  · next h =>
    simp only [Bool.and_eq_true, isNone_iff_eq_none] at h
    have idle : s.idle? = none := eq_none_iff_forall_ne_some.2 fun p hp => by
      cases h.2.symm.trans (idle?_eq_some.1 hp).2.1
    obtain ⟨o, ho, opened⟩ := openRoutine_opens hb (dropped_of_idle_none idle) spot none
    exact ⟨o, ho, .inr ⟨h.2, opened⟩⟩
  · next h =>
    refine ⟨s, rfl, .inl ⟨rfl, fun hnone => ?_⟩⟩
    simpa [hnone] using h

lemma foldlM_put_ok (h : s.routine = none → l = []) (spot) : ∃ t, l.foldlM (put spot) s = .ok t := by
  induction l generalizing s with
  | nil => exact ⟨s, rfl⟩
  | cons body l ih =>
    cases hr : s.routine with
    | none => cases h hr
    | some i =>
      obtain ⟨t, ht⟩ := ih (s := { s with book := s.book.appendRule i (s.ruleAt spot body) }) fun hnone => by
        cases hr.symm.trans hnone
      have first : put spot s body = .ok { s with book := s.book.appendRule i (s.ruleAt spot body) } := by
        rw [put, hr]
      refine ⟨t, ?_⟩
      rwa [foldlM_cons, first]

lemma putEntry_puts (hb : Apart s.book) (hopen : s.Known) {spot} {entry} (hall : s.said spot entry = .ok all)
    (hkept : counted entry all = .ok kept) :
    ∃ o t, s.putEntry spot entry = .ok t ∧ Puts o t kept ∧
      (o = s ∧ (s.routine = none → kept = []) ∨ s.routine = none ∧ Opens s o s.book.features) := by
  obtain ⟨o, ho, hcase⟩ := openFor_spec hb spot entry
  have hbodies : bodies o.marks o.book entry = .ok all := by
    unfold said at hall
    rwa [ho] at hall
  have run : s.putEntry spot entry = kept.foldlM (put spot) o := by
    rw [putEntry, ho, ok_bind, hbodies, ok_bind, hkept, ok_bind]
  rcases hcase with ⟨rfl, hvoid⟩ | ⟨hnone, opened⟩
  · have none_kept : o.routine = none → kept = [] := fun hnone => by
      have void := hvoid hnone
      cases hbodies.symm.trans (bodies_of_isVoid void o.book)
      cases entry with
      | multiple => exact (Except.ok.inj hkept).symm
      | _ => cases void
    obtain ⟨t, ht⟩ := foldlM_put_ok none_kept spot
    exact ⟨o, t, run.trans ht, foldlM_put hb hopen ht, .inl ⟨rfl, none_kept⟩⟩
  · obtain ⟨t, ht⟩ := foldlM_put_ok (fun h => by cases h.symm.trans opened.routine) spot
    refine ⟨o, t, run.trans ht, foldlM_put (opened.toTurns.adds hb).1 (fun i hi => ?_) ht, .inr ⟨hnone, opened⟩⟩
    cases hi.symm.trans opened.routine
    exact opened.routines ▸ Nat.lt_succ_self _

/-! ### Events -/

/-- Whether an event can be carried out, but for a routine that cannot be taken out. -/
def understands (s : Gathering) : Event → Bool
  | .call name => s.feature.isSome && (s.book.routineNamed? (some name)).isSome
  | .language _ => s.system.isSome
  | .rule spot entry => (s.said spot entry >>= counted entry).isOk
  | .foreign => false
  | _ => true

/-- Whether an event takes out the open routine if it has no rules. -/
def discards (s : Gathering) : Event → Bool
  | .closeFeature | .openLookup _ _ | .call _ => true
  | .flag _ value => s.turns value
  | _ => false

/-- Whether the open routine is to be taken out of a feature that calls nothing any more. -/
def overdrawn (s : Gathering) : Bool :=
  s.idle?.any fun idle => (Dict.get? s.book.features idle.1).any List.isEmpty

lemma dropped_of_overdrawn : if s.overdrawn then s.dropped = .error .outOfRange else
    ∃ features, s.dropped = .ok features := by
  unfold overdrawn dropped dropCall
  cases s.idle? with
  | none => exact ⟨_, rfl⟩
  | some idle =>
    cases h : get? s.book.features idle.1 with
    | none => simp [h]
    | some calls => cases calls <;> simp [h]

def Does (s t : Gathering) : Event → Prop
  | .openFeature name => Stays s t ∧ t.feature = some name
  | .closeFeature => ∃ features, s.dropped = .ok features ∧ Closes s t features
  | .openLookup _ _ => ∃ features, s.dropped = .ok features ∧ Opens s t features
  | .call name => ∃ features tag i, s.dropped = .ok features ∧ s.feature = some tag ∧
      s.book.routineNamed? (some name) = some i ∧ Calls s t features tag i
  | .flag _ value => (s.turns value = false ∧ Stays s t ∧ t.feature = s.feature) ∨
      s.turns value = true ∧ ∃ features, s.dropped = .ok features ∧ Opens s t features
  | .rule spot entry => ∃ o all kept, s.said spot entry = .ok all ∧ counted entry all = .ok kept ∧ Puts o t kept ∧
      (o = s ∧ (s.routine = none → kept = []) ∨ s.routine = none ∧ Opens s o s.book.features)
  | _ => Stays s t ∧ t.feature = s.feature

lemma discardEmpty_of_overdrawn (h : s.overdrawn) : s.discardEmpty = .error .outOfRange := by
  have failed := dropped_of_overdrawn (s := s)
  rw [if_pos h] at failed
  rw [discardEmpty_eq, failed]
  rfl

lemma step_of_overdrawn (hb : Apart s.book) {e} (hu : s.understands e) (hd : s.discards e)
    (h : s.overdrawn) : ∃ fault, s.step e = .error fault := by
  have failed := discardEmpty_of_overdrawn h
  cases e with
  | closeFeature => exact ⟨_, by show s.closeFeature = _; rw [closeFeature, failed]; rfl⟩
  | openLookup spot name => exact ⟨_, by show s.openRoutine spot _ = _; rw [openRoutine, failed]; rfl⟩
  | call name =>
    simp only [understands, Bool.and_eq_true, isSome_iff_exists] at hu
    obtain ⟨⟨tag, hf⟩, i, hi⟩ := hu
    refine ⟨.outOfRange, ?_⟩
    show s.callLookup name = _
    unfold callLookup named
    rw [hi, failed, hf]
    rfl
  | flag spot value =>
    obtain ⟨flagged, hf⟩ := s.flagRules_stays
    have still : s.flagRules.overdrawn = true := by
      unfold overdrawn at h ⊢
      rw [flagged.idle? hb hf, flagged.features, h]
    refine ⟨.outOfRange, ?_⟩
    show s.setFlag spot value = _
    rw [setFlag_of_turns hd]
    rw [openRoutine, discardEmpty_of_overdrawn still]
    rfl
  | _ => cases hd

lemma step_does (hb : Apart s.book) (hopen : s.Known) {e} (hu : s.understands e)
    (h : (s.discards e && s.overdrawn) = false) : ∃ t, s.step e = .ok t ∧ Does s t e := by
  have drops : s.discards e = true → ∃ features, s.dropped = .ok features := fun hd => by
    rw [hd, Bool.true_and] at h
    simpa [h] using dropped_of_overdrawn (s := s)
  cases e with
  | openFeature name => exact ⟨_, rfl, ⟨.refl _, rfl, rfl, rfl, rfl⟩, rfl⟩
  | closeFeature =>
    obtain ⟨features, hd⟩ := drops rfl
    obtain ⟨t, ht, closes⟩ := closeFeature_closes hb hd
    exact ⟨t, ht, features, hd, closes⟩
  | openLookup spot name =>
    obtain ⟨features, hd⟩ := drops rfl
    obtain ⟨t, ht, opens⟩ := openRoutine_opens hb hd spot (some name)
    exact ⟨t, ht, features, hd, opens⟩
  | closeLookup => exact ⟨_, rfl, s.flagRules_stays⟩
  | call name =>
    simp only [understands, Bool.and_eq_true, isSome_iff_exists] at hu
    obtain ⟨⟨tag, hf⟩, i, hi⟩ := hu
    obtain ⟨features, hd⟩ := drops rfl
    obtain ⟨t, ht, calls⟩ := callLookup_calls hb hd hf (by rw [named, hi])
    exact ⟨t, ht, features, tag, i, hd, hf, hi, calls⟩
  | script tag => exact ⟨_, rfl, ⟨.refl _, rfl, rfl, rfl, rfl⟩, rfl⟩
  | language tag =>
    obtain ⟨system, hs⟩ := isSome_iff_exists.1 hu
    exact ⟨s.setSystem (system.1, tag), by rw [step, hs], ⟨.refl _, rfl, rfl, rfl, rfl⟩, rfl⟩
  | flag spot value =>
    cases ht : s.turns value with
    | false =>
      obtain ⟨t, hstep, stays⟩ := setFlag_stays ht spot
      exact ⟨t, hstep, .inl ⟨ht, stays⟩⟩
    | true =>
      obtain ⟨features, hd⟩ := drops ht
      obtain ⟨t, hstep, opens⟩ := setFlag_opens hb hd ht spot
      exact ⟨t, hstep, .inr ⟨ht, features, hd, opens⟩⟩
  | rule spot entry =>
    obtain ⟨kept, hok⟩ := exists_of_isOk (hu)
    obtain ⟨all, hall, hkept⟩ := bind_eq_ok.1 hok
    obtain ⟨o, t, ht, puts, hcase⟩ := putEntry_puts hb hopen hall hkept
    exact ⟨t, ht, o, all, kept, hall, hkept, puts, hcase⟩
  | foreign => cases hu

lemma Does.adds (hb : Apart s.book) (hopen : s.Known) (h : Does s t e) :
    Apart t.book ∧ Adds s.book t.book ∧ t.Known := by
  have stays (h : Stays s t) : Apart t.book ∧ Adds s.book t.book ∧ t.Known :=
    ⟨(h.adds hb).1, (h.adds hb).2, fun i hi => h.routines ▸ hopen i (h.routine ▸ hi)⟩
  have opens {t} {features} (h : Opens s t features) : Apart t.book ∧ Adds s.book t.book ∧ t.Known := by
    refine ⟨(h.toTurns.adds hb).1, (h.toTurns.adds hb).2, fun i hi => ?_⟩
    cases hi.symm.trans h.routine
    exact h.routines ▸ Nat.lt_succ_self _
  cases e with
  | closeFeature =>
    obtain ⟨features, -, closes⟩ := h
    exact ⟨(closes.toTurns.adds hb).1, (closes.toTurns.adds hb).2, fun i hi => by cases hi.symm.trans closes.routine⟩
  | openLookup =>
    obtain ⟨features, -, opened⟩ := h
    exact opens opened
  | call =>
    obtain ⟨features, tag, i, -, -, -, calls⟩ := h
    exact ⟨(calls.toTurns.adds hb).1, (calls.toTurns.adds hb).2, fun i hi => calls.routines ▸ hopen i (calls.routine ▸ hi)⟩
  | flag spot value =>
    rcases h with ⟨-, still, -⟩ | ⟨-, features, -, opened⟩
    · exact stays still
    · exact opens opened
  | rule spot entry =>
    obtain ⟨o, all, kept, -, -, puts, hcase⟩ := h
    have routine : t.routine = o.routine := by rw [puts.rest]
    have opened : Adds s.book o.book ∧ o.Known := by
      rcases hcase with ⟨rfl, -⟩ | ⟨-, opened⟩
      · exact ⟨.refl _, hopen⟩
      · exact (opens opened).2
    exact ⟨puts.apart, opened.1.trans puts.adds, fun i hi => puts.routines ▸ opened.2 i (routine ▸ hi)⟩
  | openFeature | closeLookup | script | language | foreign => exact stays h.1

end Gathering

end GlyphRules.Feature
