import GlyphRules.Book.Optimise
import GlyphRules.Proofs.Book.Update
import GlyphRules.Proofs.Dict
import GlyphRules.Proofs.Number
import GlyphRules.Proofs.Shaping.Rewriting
import GlyphRules.Proofs.Text

/-! Long slots under names.

A slot of more than five glyphs is written as a class. A class that has the glyphs already is used
again, in whatever order it has them; otherwise a new one is made under the next number, over any
class of that name. If neither happens (`Naming.Unambiguous`), and only then, every slot and every
class stands for the glyphs it had (`nameAll_preserves_iff`). -/
namespace GlyphRules

open Step Shaping List Rule Book Dict

variable {b : Book} {classes : Classes} {st : Naming} {r r' : Rule} {s : Slot} {x : String × List String}

namespace Optimise

/-! ### Naming slots -/

/-- The classes that have a name, and the number of the last one that was made. -/
structure Naming where
  classes : Classes
  last : Int

def className (n : Int) : String := "class" ++ toString n

lemma className_injective (h : className m = className n) : m = n := by
  refine Number.toString_injective (String.toList_inj.1 ?_)
  have := congrArg String.toList h
  unfold className at this
  rwa [String.toList_append, String.toList_append, append_cancel_left_eq] at this

namespace Naming

/-- The first class with the glyphs of a slot, in any order. -/
def holder (classes : Classes) (s : Slot) : Option (String × List String) :=
  classes.find? fun x => x.2.Perm s

def name (st : Naming) (s : Slot) : Slot × Naming :=
  if s.length > 5 then
    match holder st.classes s with
    | some x => (["@" ++ x.1], { st with last := st.last + 1 })
    | none => (["@" ++ className (st.last + 1)],
        { classes := Dict.set st.classes (className (st.last + 1)) s, last := st.last + 1 })
  else (s, st)

def names (st : Naming) : List Slot → List Slot × Naming
  | [] => ([], st)
  | s :: slots => ((st.name s).1 :: (names (st.name s).2 slots).1, (names (st.name s).2 slots).2)

/-- The meaning of long slots and of classes is kept. -/
structure Unambiguous (classes : Classes) (last : Int) (slots : List Slot) : Prop where
  /-- A class that is used again has the glyphs in the order of the slot. -/
  known : ∀ s ∈ slots, ∀ x, holder classes s = some x → x.2 = s
  /-- Slots that come to share a new class are the same. -/
  alike : ∀ s ∈ slots, ∀ t ∈ slots, t.Perm s → (∀ x ∈ classes, ¬x.2.Perm s) → t = s
  /-- The name of a new class is new. -/
  fresh : ∀ n (h : n < slots.length), (∀ x ∈ classes, ¬x.2.Perm slots[n]) → (∀ t ∈ slots.take n, ¬t.Perm slots[n]) →
    className (last + 1 + n) ∉ classes.map (·.1)

instance (classes : Classes) (last : Int) (slots : List Slot) : Decidable (Unambiguous classes last slots) :=
  decidable_of_iff ((∀ s ∈ slots, ∀ x ∈ holder classes s, x.2 = s) ∧
      (∀ s ∈ slots, ∀ t ∈ slots, t.Perm s → (∀ x ∈ classes, ¬x.2.Perm s) → t = s) ∧
      ∀ n (h : n < slots.length), (∀ x ∈ classes, ¬x.2.Perm slots[n]) → (∀ t ∈ slots.take n, ¬t.Perm slots[n]) →
        className (last + 1 + n) ∉ classes.map (·.1))
    ⟨fun h => ⟨h.1, h.2.1, h.2.2⟩, fun h => ⟨h.known, h.alike, h.fresh⟩⟩

lemma names_append (st : Naming) (a b) : st.names (a ++ b) =
    ((st.names a).1 ++ ((st.names a).2.names b).1, ((st.names a).2.names b).2) := by
  induction a generalizing st with
  | nil => rfl
  | cons s a ih => rw [cons_append, names, ih]; rfl

lemma length_names (st : Naming) (slots) : (st.names slots).1.length = slots.length := by
  induction slots generalizing st with
  | nil => rfl
  | cons s slots ih => rw [names, length_cons, ih, length_cons]

lemma name_short (h : s.length ≤ 5) (st : Naming) : st.name s = (s, st) := if_neg (Nat.not_lt.2 h)

lemma name_held (h : s.length > 5)
    (hx : holder st.classes s = some x) : st.name s = (["@" ++ x.1], { st with last := st.last + 1 }) := by
  rw [name, if_pos h, hx]

lemma name_new (h : s.length > 5) (hs : holder st.classes s = none) : st.name s = (["@" ++ className (st.last + 1)],
      { classes := set st.classes (className (st.last + 1)) s, last := st.last + 1 }) := by
  rw [name, if_pos h, hs]

lemma names_short (h : ∀ s ∈ slots, s.length ≤ 5) (st : Naming) :
    st.names slots = (slots, st) := by
  induction slots with
  | nil => rfl
  | cons s slots ih =>
    obtain ⟨hs, hslots⟩ := forall_mem_cons.1 h
    rw [names, name_short hs, ih hslots]

lemma short_name (st : Naming) (s) : (st.name s).1.length ≤ 5 := by
  unfold name
  split
  · split
    all_goals exact Nat.le_of_ble_eq_true rfl
  · next h => exact Nat.not_lt.1 h

lemma short_names (st : Naming) (slots) : ∀ s ∈ (st.names slots).1, s.length ≤ 5 := by
  induction slots generalizing st with
  | nil => exact forall_mem_nil _
  | cons s slots ih => exact forall_mem_cons.2 ⟨st.short_name s, ih _⟩

lemma holder_eq_none : holder classes s = none ↔ ∀ x ∈ classes, ¬x.2.Perm s := by
  rw [holder, List.find?_eq_none]
  simp only [decide_eq_true_eq]

lemma holder_eq_some (h : holder classes s = some x) : x ∈ classes ∧ x.2.Perm s := by
  have hsame := List.find?_some h
  exact ⟨mem_of_find?_eq_some h, of_decide_eq_true hsame⟩

lemma holder_congr (classes) {t} (h : t.Perm s) : holder classes t = holder classes s := by
  unfold holder
  simp only [h.congr_right]

lemma holder_append (classes) (k) (s t : Slot) :
    holder (classes ++ [(k, s)]) t = (holder classes t).or (if t.Perm s then some (k, s) else none) := by
  rw [holder, List.find?_append, List.find?_singleton]
  congr 1
  simp only [decide_eq_true_eq]
  exact if_congr perm_comm rfl rfl

section Next
variable {last : Int} {slots : List Slot}

lemma unambiguous_known (hx : holder classes s = some x) :
    Unambiguous classes last (s :: slots) ↔ x.2 = s ∧ Unambiguous classes (last + 1) slots := by
  obtain ⟨hmem, hperm⟩ := holder_eq_some hx
  have hcount n : last + 1 + 1 + n = last + 1 + (n + 1 : Nat) := by omega
  have hold {t} ht (hnew : ∀ x ∈ classes, ¬x.2.Perm t) : False := hnew x hmem (hperm.trans ht)
  constructor
  · intro h
    refine ⟨h.known s (.head _) x hx, ?_, ?_, ?_⟩
    · exact fun t ht => h.known t (.tail _ ht)
    · exact fun t ht u hu => h.alike t (.tail _ ht) u (.tail _ hu)
    · intro n hn hnew hfirst
      rw [hcount]
      exact h.fresh (n + 1) (Nat.succ_lt_succ hn) hnew (forall_mem_cons.2 ⟨fun ht => hold ht hnew, hfirst⟩)
  · rintro ⟨hs, h⟩
    refine ⟨?_, ?_, ?_⟩
    · refine forall_mem_cons.2 ⟨fun y hy => ?_, h.known⟩
      cases hx.symm.trans hy
      exact hs
    · intro t ht u hu hut hnew
      rcases mem_cons.1 ht with rfl | ht
      · exact (hold (Perm.refl t) hnew).elim
      · rcases mem_cons.1 hu with rfl | hu
        · exact (hold hut hnew).elim
        · exact h.alike t ht u hu hut hnew
    · intro n hn hnew hfirst
      cases n with
      | zero => exact (hold (Perm.refl s) hnew).elim
      | succ n =>
        rw [← hcount]
        exact h.fresh n (Nat.lt_of_succ_lt_succ hn) hnew fun t ht => hfirst t (.tail _ ht)

lemma unambiguous_new (hs : holder classes s = none) :
    Unambiguous classes last (s :: slots) ↔ className (last + 1) ∉ classes.map (·.1) ∧
      Unambiguous (classes ++ [(className (last + 1), s)]) (last + 1) slots := by
  have hcount n : last + 1 + 1 + n = last + 1 + (n + 1 : Nat) := by omega
  have hzero : last + 1 + (0 : Nat) = last + 1 := by omega
  have hnone := holder_eq_none.1 hs
  -- No class has the glyphs of a slot, the new one included.
  have hnew {t} : (∀ x ∈ classes ++ [(className (last + 1), s)], ¬x.2.Perm t) ↔
      (∀ x ∈ classes, ¬x.2.Perm t) ∧ ¬s.Perm t := by
    rw [forall_mem_append, forall_mem_singleton]
  constructor
  · intro h
    have hname := h.fresh 0 (Nat.zero_lt_succ _) hnone (forall_mem_nil _)
    rw [hzero] at hname
    refine ⟨hname, ?_, ?_, ?_⟩
    · intro t ht x hx
      rw [holder_append] at hx
      cases hheld : holder classes t with
      | some y =>
        rw [hheld] at hx
        cases hx
        exact h.known t (.tail _ ht) x hheld
      | none =>
        rw [hheld] at hx
        split at hx
        · next hperm =>
          cases hx
          exact h.alike t (.tail _ ht) s (.head _) hperm.symm (holder_eq_none.1 hheld)
        · cases hx
    · exact fun t ht u hu hut hclasses =>
        h.alike t (.tail _ ht) u (.tail _ hu) hut (hnew.1 hclasses).1
    · intro n hn hclasses hfirst
      obtain ⟨hold, hts⟩ := hnew.1 hclasses
      have hfresh := h.fresh (n + 1) (Nat.succ_lt_succ hn) hold (forall_mem_cons.2 ⟨hts, hfirst⟩)
      rw [hcount, map_append, mem_append, not_or]
      refine ⟨hfresh, fun hsame => ?_⟩
      have := className_injective (mem_singleton.1 hsame)
      omega
  · rintro ⟨hname, h⟩
    -- A slot with the glyphs of this one comes to use its class.
    have hshared {t} (ht : t ∈ slots) (hperm : t.Perm s) : t = s := by
      refine (h.known t ht (className (last + 1), s) ?_).symm
      rw [holder_append, holder_congr classes hperm, hs, if_pos hperm]
      rfl
    refine ⟨?_, ?_, ?_⟩
    · refine forall_mem_cons.2 ⟨fun y hy => absurd (hs.symm.trans hy) (Option.some_ne_none y).symm, ?_⟩
      intro t ht x hx
      refine h.known t ht x ?_
      rw [holder_append, hx]
      rfl
    · intro t ht u hu hut hold
      rcases mem_cons.1 ht with hts | ht <;> rcases mem_cons.1 hu with hus | hu
      · rw [hts, hus]
      · rw [hts] at hut ⊢
        exact hshared hu hut
      · rw [hus] at hut ⊢
        exact (hshared ht hut.symm).symm
      · by_cases hts : s.Perm t
        · rw [hshared hu (hut.trans hts.symm), hshared ht hts.symm]
        · exact h.alike t ht u hu hut (hnew.2 ⟨hold, hts⟩)
    · intro n hn hold hfirst
      cases n with
      | zero => rwa [hzero]
      | succ n =>
        obtain ⟨hts, hfirst⟩ := forall_mem_cons.1 hfirst
        have hfresh := h.fresh n (Nat.lt_of_succ_lt_succ hn) (hnew.2 ⟨hold, hts⟩) hfirst
        rw [← hcount]
        exact fun hmem => hfresh (by rw [map_append]; exact mem_append_left _ hmem)

end Next

/-! ### What names stand for -/

/-- Every class stands for what it stood for. -/
def Kept (classes classes' : Classes) : Prop :=
  ∀ k glyphs, Dict.get? classes k = some glyphs → Dict.get? classes' k = some glyphs

/-- No name of a slot is that of a class. -/
def Plain (slots : List Slot) : Prop := ∀ s ∈ slots, ∀ g ∈ s, g.toList.head? ≠ some '@'

lemma expandSlot_name (classes) (k) :
    expandSlot classes ["@" ++ k] = (get? classes k).getD [] := by
  unfold expandSlot expandName
  rw [flatMap_singleton, String.toList_append]
  show (get? classes (String.ofList k.toList)).getD [] = _
  rw [String.ofList_toList]

lemma kept_set {k} (hk : k ∉ classes.map (·.1)) (s : Slot) :
    Kept (set classes k s) classes' ↔ get? classes' k = some s ∧ Kept classes classes' := by
  unfold Kept
  simp only [get?_set]
  constructor
  · intro h
    refine ⟨h k s (if_pos rfl), fun k' glyphs hget => h k' glyphs ?_⟩
    rwa [if_neg]
    rintro rfl
    exact hk (mem_keys_iff.2 (Option.isSome_of_eq_some hget))
  · rintro ⟨hs, h⟩ k' glyphs hget
    split at hget
    · next hkey =>
      cases hget
      rwa [hkey]
    · exact h k' glyphs hget

/-- **Slots and classes keep their meaning exactly if the naming is unambiguous.** -/
lemma expand_names_iff (hplain : Plain slots) {st : Naming}
    (hkeys : (st.classes.map (·.1)).Nodup) :
    ((st.names slots).1.map (expandSlot (st.names slots).2.classes) = slots ∧
        Kept st.classes (st.names slots).2.classes) ↔
      Unambiguous st.classes st.last (slots.filter fun s => s.length > 5) := by
  induction slots generalizing st with
  | nil => exact ⟨fun _ => ⟨forall_mem_nil _, forall_mem_nil _, fun n h => absurd h (Nat.not_lt_zero n)⟩,
      fun _ => ⟨rfl, fun _ _ h => h⟩⟩
  | cons s slots ih =>
    obtain ⟨hs, hslots⟩ := forall_mem_cons.1 hplain
    by_cases hlong : s.length > 5
    · rw [filter_cons, if_pos (decide_eq_true hlong), names]
      cases hheld : holder st.classes s with
      | some x =>
        rw [name_held hlong hheld, map_cons, expandSlot_name, cons_eq_cons, unambiguous_known hheld,
          ← @ih hslots { st with last := st.last + 1 } hkeys, and_assoc]
        refine and_congr_left fun h => ?_
        rw [h.2 x.1 x.2 ((mem_iff_get? hkeys).1 (holder_eq_some hheld).1)]
        rfl
      | none =>
        rw [name_new hlong hheld, map_cons, expandSlot_name, cons_eq_cons, unambiguous_new hheld]
        by_cases hname : className (st.last + 1) ∈ st.classes.map (·.1)
        · refine iff_of_false ?_ fun h => h.1 hname
          -- The class of that name would have to have the glyphs of the slot.
          rintro ⟨⟨hsame, -⟩, hkept⟩
          obtain ⟨old, hold⟩ := Option.isSome_iff_exists.1 (mem_keys_iff.1 hname)
          rw [hkept _ _ hold] at hsame
          exact holder_eq_none.1 hheld _ ((mem_iff_get? hkeys).2 hold) (Perm.of_eq hsame)
        · rw [and_iff_right hname, ← set_of_not_mem hname,
            ← @ih hslots ⟨set st.classes (className (st.last + 1)) s, st.last + 1⟩
              (nodup_alter hkeys _ s fun _ => s), kept_set hname, and_left_comm, and_assoc]
          refine and_congr_left' ⟨fun hget => ?_, fun hget => by rw [hget]; rfl⟩
          -- A class that is not known is empty, which a long slot is not.
          cases hfound : get? _ (className (st.last + 1)) with
          | some glyphs => exact congrArg some (by rwa [hfound] at hget)
          | none =>
            rw [hfound] at hget
            rw [← hget] at hlong
            cases hlong
    · rw [filter_cons, if_neg (by simpa using hlong), names, name_short (Nat.not_lt.1 hlong), map_cons,
        expandSlot_glyphs _ hs, cons_eq_cons, eq_self_iff_true, true_and]
      exact ih hslots hkeys

end Naming

/-! ### The classes of a book -/

/-- A book has these classes and has counted so far. -/
structure Stage (b : Book) (st : Naming) : Prop where
  classes : b.namedClasses = st.classes
  counter : b.classIndex = .at st.last ∨ b.classIndex = .unset ∧ st.last = 0

lemma nextIndex_on (h : Stage b st) : ∃ b', Feature.nextIndex.on b = (.ok (toString (st.last + 1)), b') ∧
      Stage b' { st with last := st.last + 1 } ∧ b'.rules = b.rules := by
  rw [Feature.nextIndex, on_get_bind]
  rcases h.counter with hcount | ⟨hcount, hlast⟩
  · rw [hcount]
    exact ⟨_, rfl, ⟨h.classes, .inl rfl⟩, rfl⟩
  · rw [hcount, hlast]
    exact ⟨_, rfl, ⟨h.classes, .inl rfl⟩, rfl⟩

lemma find?_sorted (classes) (s) :
    (classes.find? fun x => Text.sort x.2 == Text.sort s) = Naming.holder classes s := by
  congr 1
  funext x
  rw [Bool.eq_iff_iff, beq_iff_eq, Text.sort_eq_iff, decide_eq_true_iff]

lemma nameSlot_on (h : Stage b st) (s) :
    ∃ b', (nameSlot s).on b = (.ok (st.name s).1, b') ∧ Stage b' (st.name s).2 ∧ b'.rules = b.rules := by
  unfold nameSlot
  by_cases hlong : s.length > 5
  · obtain ⟨c, hc, hstage, hrules⟩ := nextIndex_on h
    rw [if_pos hlong, on_bind_ok hc, on_get_bind]
    have found := find?_sorted c.namedClasses s
    cases hheld : Naming.holder st.classes s with
    | some x =>
      rw [hstage.classes, hheld, ← hstage.classes] at found
      simp only [classFor, found, Naming.name_held hlong hheld]
      exact ⟨c, rfl, hstage, hrules⟩
    | none =>
      rw [hstage.classes, hheld, ← hstage.classes] at found
      simp only [classFor, found, Naming.name_new hlong hheld]
      refine ⟨_, rfl, ⟨?_, hstage.counter⟩, hrules⟩
      rw [hstage.classes]
      rfl
  · rw [if_neg hlong, Naming.name_short (Nat.not_lt.1 hlong)]
    exact ⟨b, rfl, h, rfl⟩

lemma nameLong_on (h : Stage b st) (slots) :
    ∃ b', (nameLong slots).on b = (.ok (st.names slots).1, b') ∧ Stage b' (st.names slots).2 ∧ b'.rules = b.rules := by
  unfold nameLong
  induction slots generalizing b st with
  | nil => exact ⟨b, rfl, h, rfl⟩
  | cons s slots ih =>
    obtain ⟨c, hc, hstage, hrules⟩ := nameSlot_on h s
    obtain ⟨d, hd, hstage', hrules'⟩ := ih hstage
    rw [mapM_cons, on_bind_ok hc, on_bind_ok hd]
    exact ⟨d, rfl, hstage', hrules'.trans hrules⟩

/-! ### The slots of a rule -/

end Optimise

def Substitution.mapSlots (f : Slot → Slot) (s : Substitution) : Substitution :=
  { s with input := s.input.map (·.map f)
           replacement := s.replacement.map (·.map f)
           before := s.before.map f
           after := s.after.map f }

/-- All slots, in the order in which they are named. -/
def Substitution.slots (s : Substitution) : List Slot :=
  s.input.getD [] ++ s.before ++ s.after ++ s.replacement.getD []

namespace Substitution

lemma slots_mapSlots (f) (s : Substitution) : (s.mapSlots f).slots = s.slots.map f := by
  have side (o : Option (List Slot)) : (o.map (·.map f)).getD [] = (o.getD []).map f := by cases o <;> rfl
  simp only [slots, mapSlots, side, map_append]

lemma eq_of_slots {s s' : Substitution} (h : s.mapSlots (fun _ => []) = s'.mapSlots fun _ => [])
    (hslots : s.slots = s'.slots) : s = s' := by
  have length {l l' : List Slot} (h : l.map (fun _ => ([] : Slot)) = l'.map fun _ => []) : l.length = l'.length := by
    simpa using congrArg List.length h
  have length? {o o' : Option (List Slot)} (h : (o.map (·.map fun _ => ([] : Slot))) = o'.map (·.map fun _ => [])) :
      (o.getD []).length = (o'.getD []).length ∧ (o.getD [] = o'.getD [] → o = o') := by
    cases o <;> cases o' <;> simp_all
  injection h with hinput hreplacement hbefore hafter hcalls hreversal halternate
  obtain ⟨hinput, input⟩ := length? hinput
  obtain ⟨-, replacement⟩ := length? hreplacement
  have hbefore := length hbefore
  have hafter := length hafter
  obtain ⟨hslots, sameReplacement⟩ := append_inj hslots (by simp only [length_append]; omega)
  obtain ⟨hslots, sameAfter⟩ := append_inj hslots (by simp only [length_append]; omega)
  obtain ⟨sameInput, sameBefore⟩ := append_inj hslots hinput
  cases s'
  cases input sameInput
  cases replacement sameReplacement
  cases sameBefore
  cases sameAfter
  cases hcalls
  cases hreversal
  cases halternate
  rfl

end Substitution

namespace Rule

def mapSlots (f : Slot → Slot) (r : Rule) : Rule :=
  { r with body := match r.body with
      | .substitution s => .substitution (s.mapSlots f)
      | body => body }

/-- A substitution with its classes written out. -/
def expanded (classes : Shaping.Classes) (r : Rule) : Rule := r.mapSlots (Shaping.expandSlot classes)

def slots (r : Rule) : List Slot :=
  match r.body with
  | .substitution s => s.slots
  | _ => []

def form (r : Rule) : Rule := r.mapSlots fun _ => []

lemma slots_mapSlots (f) (r : Rule) : (r.mapSlots f).slots = r.slots.map f := by
  unfold slots mapSlots
  cases r.body with
  | substitution s => exact s.slots_mapSlots f
  | _ => rfl

lemma form_mapSlots (f) (r : Rule) : (r.mapSlots f).form = r.form := by
  unfold form mapSlots
  cases r.body with
  | substitution s => simp only [Substitution.mapSlots, map_map, Option.map_map, Function.comp_def]
  | _ => rfl

lemma eq_iff_form_slots : r = r' ↔ r.form = r'.form ∧ r.slots = r'.slots := by
  refine ⟨fun h => by rw [h]; exact ⟨rfl, rfl⟩, fun ⟨hform, hslots⟩ => ?_⟩
  obtain ⟨body⟩ := r
  obtain ⟨body'⟩ := r'
  injection hform with hbody hflags hlanguages haddress hgroup hunwritable
  have same : body = body' := by
    cases body with
    | substitution s =>
      cases body' with
      | substitution s' =>
        injection hbody with hbody
        rw [Substitution.eq_of_slots hbody hslots]
      | _ => cases hbody
    | _ =>
      cases body' with
      | substitution s' => cases hbody
      | _ => exact hbody
  rw [mk.injEq]
  exact ⟨same, hflags, hlanguages, haddress, hgroup, hunwritable⟩

lemma length_slots (h : r'.form = r.form) : r'.slots.length = r.slots.length := by
  have := congrArg (·.slots.length) h
  unfold form at this
  simpa only [slots_mapSlots, length_map] using this

lemma mapSlots_eq_iff (h : r'.form = r.form) (f) : r'.mapSlots f = r ↔ r'.slots.map f = r.slots := by
  rw [eq_iff_form_slots, form_mapSlots, slots_mapSlots, and_iff_right h]

end Rule

namespace Optimise

def slotsOf (b : Book) (ids : List RuleId) : List Slot := ids.eraseDups.flatMap fun id => (b.rule id).slots

lemma slotsOf_append (b) (ids) (id) :
    slotsOf b (ids ++ [id]) = slotsOf b ids ++ if id ∈ ids then [] else (b.rule id).slots := by
  unfold slotsOf
  rw [eraseDups_append, flatMap_append]
  by_cases hid : id ∈ ids
  · have gone : [id].removeAll ids = [] := by simpa [List.removeAll] using hid
    rw [if_pos hid, gone]
    rfl
  · have kept : [id].removeAll ids = [id] := by simpa [List.removeAll] using hid
    rw [if_neg hid, kept, eraseDups_cons, filter_nil, eraseDups_nil, flatMap_singleton]

lemma slotsOf_congr {ids} (h : ∀ id ∈ ids, (b'.rule id).slots = (b.rule id).slots) :
    slotsOf b' ids = slotsOf b ids :=
  flatMap_congr fun id hid => h id (mem_eraseDups.1 hid)

def TwoSided (r : Rule) : Prop := ∃ s, r.body = .substitution s ∧ s.input.isSome ∧ s.replacement.isSome
deriving Decidable

lemma TwoSided.of_form (h : r'.form = r.form) (hr : TwoSided r) : TwoSided r' := by
  obtain ⟨s, hbody, hinput, hreplacement⟩ := hr
  have hform := congrArg body h
  unfold form mapSlots at hform
  rw [hbody] at hform
  cases hbody' : r'.body with
  | substitution s' =>
    rw [hbody'] at hform
    injection hform with hsame
    have input := congrArg (·.input.isSome) hsame
    have replacement := congrArg (·.replacement.isSome) hsame
    simp only [Substitution.mapSlots, Option.isSome_map] at input replacement
    exact ⟨s', hbody', input.trans hinput, replacement.trans hreplacement⟩
  | _ =>
    rw [hbody'] at hform
    cases hform

def Naming.named (st : Naming) (s : Substitution) : Substitution × Naming :=
  let input := st.names (s.input.getD [])
  let before := input.2.names s.before
  let after := before.2.names s.after
  let replacement := after.2.names (s.replacement.getD [])
  ({ s with input := some input.1, before := before.1, after := after.1, replacement := some replacement.1 },
    replacement.2)

/-- The rule has come so far in a book, and no other rule has changed. -/
structure Rewritten (b : Book) (id : RuleId) (b' : Book) (st : Naming) (body : RuleBody) : Prop where
  stage : Stage b' st
  known : id < b'.rules.size
  rule : b'.rule id = { b.rule id with body }
  others : ∀ x, x ≠ id → b'.rule x = b.rule x

namespace Rewritten
variable {b₁ : Book} {id : RuleId} {body : RuleBody}

lemma name (h : Rewritten b id b₁ st body) (slots) :
    ∃ b₂, (nameLong slots).on b₁ = (.ok (st.names slots).1, b₂) ∧ Rewritten b id b₂ (st.names slots).2 body := by
  obtain ⟨b₂, hrun, hstage, hrules⟩ := nameLong_on h.stage slots
  have same x : b₂.rule x = b₁.rule x := by rw [rule_eq, rule_eq, hrules]
  exact ⟨b₂, hrun, hstage, hrules ▸ h.known, (same id).trans h.rule, fun x hx => (same x).trans (h.others x hx)⟩

lemma name? (h : Rewritten b id b₁ st body) {side} (hside : side.isSome) :
    ∃ b₂, (nameLong? side).on b₁ = (.ok (some (st.names (side.getD [])).1), b₂) ∧
      Rewritten b id b₂ (st.names (side.getD [])).2 body := by
  obtain ⟨slots, rfl⟩ := Option.isSome_iff_exists.1 hside
  obtain ⟨b₂, hrun, hnext⟩ := h.name slots
  exact ⟨b₂, on_bind_ok hrun _, hnext⟩

lemma put (h : Rewritten b id b₁ st body) (body') :
    Rewritten b id (b₁.alterRule id fun r => { r with body := body' }) st body' where
  stage := ⟨h.stage.classes, h.stage.counter⟩
  known := by
    rw [alterRule, Array.size_modify]
    exact h.known
  rule := by rw [rule_alterRule_self h.known, h.rule]
  others x hx := by rw [rule_alterRule_ne _ hx, h.others x hx]

end Rewritten

lemma nameLongSlots_on (h : Stage b st) {id} {s}
    (hbody : (b.rule id).body = .substitution s) (hinput : s.input.isSome) (hreplacement : s.replacement.isSome) :
    ∃ b', (nameLongSlots id).on b = (.ok ⟨⟩, b') ∧ Rewritten b id b' (st.named s).2 (.substitution (st.named s).1) := by
  have hid : id < b.rules.size := by
    refine Nat.lt_of_not_le fun hle => ?_
    rw [rule_of_size_le hle] at hbody
    cases hbody
    cases hinput
  have start : Rewritten b id b st (.substitution s) := ⟨h, hid, by rw [← hbody], fun _ _ => rfl⟩
  obtain ⟨b₁, hrun₁, h₁⟩ := start.name? hinput
  obtain ⟨b₂, hrun₂, h₂⟩ := (h₁.put (.substitution _)).name s.before
  obtain ⟨b₃, hrun₃, h₃⟩ := (h₂.put (.substitution _)).name s.after
  obtain ⟨b₄, hrun₄, h₄⟩ := (h₃.put (.substitution _)).name? hreplacement
  refine ⟨_, ?_, h₄.put _⟩
  rw [nameLongSlots, on_get_bind, hbody]
  refine (on_bind_ok hrun₁ _).trans ?_
  rw [on_bind_ok (on_modify _ _)]
  refine (on_bind_ok hrun₂ _).trans ?_
  rw [on_bind_ok (on_modify _ _)]
  refine (on_bind_ok hrun₃ _).trans ?_
  rw [on_bind_ok (on_modify _ _)]
  refine (on_bind_ok hrun₄ _).trans ?_
  rfl

/-! ### Rule after rule -/

structure Named (b : Book) (st : Naming) (done : List RuleId) (t : Book) : Prop where
  stage : Stage t (st.names (slotsOf b done)).2
  slots : slotsOf t done = (st.names (slotsOf b done)).1
  form : ∀ x, (t.rule x).form = (b.rule x).form
  undone : ∀ x, x ∉ done → t.rule x = b.rule x

lemma Named.next {done} (h : Named b st done t) {id} (hid : TwoSided (b.rule id)) :
    ∃ u, (nameLongSlots id).on t = (.ok ⟨⟩, u) ∧ Named b st (done ++ [id]) u := by
  obtain ⟨s, hbody, hinput, hreplacement⟩ := hid.of_form (h.form id)
  obtain ⟨u, hrun, hu⟩ := nameLongSlots_on h.stage hbody hinput hreplacement
  have hform : (u.rule id).form = (t.rule id).form := by
    obtain ⟨input, hinput⟩ := Option.isSome_iff_exists.1 hinput
    obtain ⟨replacement, hreplacement⟩ := Option.isSome_iff_exists.1 hreplacement
    simp only [Rule.form, Rule.mapSlots, hu.rule, hbody, Substitution.mapSlots, Naming.named, hinput, hreplacement,
      Option.map_some, Option.getD_some, map_const', Naming.length_names]
  have hslots : ((u.rule id).slots, (Naming.named (st.names (slotsOf b done)).2 s).2) =
      (st.names (slotsOf b done)).2.names (t.rule id).slots := by
    unfold Rule.slots Substitution.slots
    rw [hu.rule, hbody, Naming.names_append, Naming.names_append, Naming.names_append]
    rfl
  have form x : (u.rule x).form = (b.rule x).form := by
    by_cases hx : x = id
    · rw [hx, hform, h.form]
    · rw [hu.others x hx, h.form]
  have undone x (hx : x ∉ done ++ [id]) : u.rule x = b.rule x := by
    rw [mem_append, not_or, mem_singleton] at hx
    rw [hu.others x hx.2, h.undone x hx.1]
  refine ⟨u, hrun, ?_⟩
  by_cases hdone : id ∈ done
  · -- The rule has been here before: its slots are short, so nothing is named again.
    have hshort : ∀ slot ∈ (t.rule id).slots, slot.length ≤ 5 := by
      intro slot hslot
      refine Naming.short_names st (slotsOf b done) slot ?_
      rw [← h.slots]
      exact mem_flatMap.2 ⟨id, mem_eraseDups.2 hdone, hslot⟩
    rw [Naming.names_short hshort, Prod.mk.injEq] at hslots
    have same : slotsOf u done = slotsOf t done := by
      refine slotsOf_congr fun x _ => ?_
      by_cases hx : x = id
      · rw [hx, hslots.1]
      · rw [hu.others x hx]
    have grown c : slotsOf c (done ++ [id]) = slotsOf c done := by
      rw [slotsOf_append, if_pos hdone, append_nil]
    refine ⟨?_, ?_, form, undone⟩
    · rw [grown, ← hslots.2]
      exact hu.stage
    · rw [grown, grown, same, h.slots]
  · have same : slotsOf u done = slotsOf t done :=
      slotsOf_congr fun x hx => by rw [hu.others x (ne_of_mem_of_not_mem hx hdone)]
    rw [h.undone id hdone] at hslots
    have grown c : slotsOf c (done ++ [id]) = slotsOf c done ++ (c.rule id).slots := by
      rw [slotsOf_append, if_neg hdone]
    refine ⟨?_, ?_, form, undone⟩
    · rw [grown, Naming.names_append, ← hslots]
      exact hu.stage
    · rw [grown, grown, Naming.names_append, ← hslots, same, h.slots]

lemma nameAll_on (h : Stage b st) {i} (hrules : ∀ id ∈ b.ruleIds i, TwoSided (b.rule id)) :
    ∃ b', (nameAll i).on b = (.ok ⟨⟩, b') ∧ Named b st (b.ruleIds i) b' := by
  rw [nameAll, on_get_bind]
  obtain ⟨t, hrun, hnamed⟩ := on_forM_reaches (Named b st)
    (fun hid hdone => hdone.next (hrules _ hid)) ⟨h, rfl, fun _ => rfl, fun _ _ => rfl⟩
  exact ⟨t, on_bind_ok ((on_forIn _ _ b).trans hrun) _, hnamed⟩

def lastClass (b : Book) : Int :=
  match b.classIndex with
  | .at n => n
  | _ => 0

lemma Stage.ofBook (h : b.classIndex ≠ .unusable) : Stage b ⟨b.namedClasses, lastClass b⟩ := by
  refine ⟨rfl, ?_⟩
  unfold lastClass
  cases hcount : b.classIndex with
  | unset => exact .inr ⟨rfl, rfl⟩
  | «at» n => exact .inl rfl
  | unusable => exact absurd hcount h

lemma flatMap_eq_iff {α β : Type} {l : List α} {f g : α → List β} (h : ∀ x ∈ l, (f x).length = (g x).length) :
    l.flatMap f = l.flatMap g ↔ ∀ x ∈ l, f x = g x := by
  induction l with
  | nil => simp
  | cons x l ih =>
    obtain ⟨hx, hl⟩ := forall_mem_cons.1 h
    rw [flatMap_cons, flatMap_cons, forall_mem_cons, ← ih hl]
    exact ⟨fun happend => append_inj happend hx, fun ⟨hhead, htail⟩ => by rw [hhead, htail]⟩

lemma expanded_iff {ids} (hplain : Naming.Plain (slotsOf b ids))
    (hform : ∀ x, (t.rule x).form = (b.rule x).form) (classes classes') :
    (∀ id ∈ ids, (t.rule id).expanded classes' = (b.rule id).expanded classes) ↔
      (slotsOf t ids).map (expandSlot classes') = slotsOf b ids := by
  have plain {id} (hid : id ∈ ids) : (b.rule id).expanded classes = b.rule id := by
    refine (mapSlots_eq_iff rfl _).2 ((map_congr_left fun s hs => ?_).trans (map_id _))
    exact expandSlot_glyphs classes (hplain s (mem_flatMap.2 ⟨id, mem_eraseDups.2 hid, hs⟩))
  unfold slotsOf
  rw [map_flatMap, flatMap_eq_iff]
  · refine forall_congr' fun id => ?_
    rw [mem_eraseDups]
    refine forall_congr' fun hid => ?_
    rw [plain hid]
    exact mapSlots_eq_iff (hform id) _
  · intro id _
    rw [length_map]
    exact length_slots (hform id)

/-- **Naming the long slots of a routine's substitutions keeps the meaning of rules and classes exactly if no class
is used again in another order and no name is taken.** -/
theorem nameAll_preserves_iff {b : Book} {i : RoutineId} (hkeys : (b.namedClasses.map (·.1)).Nodup)
    (hcount : b.classIndex ≠ .unusable) (hrules : ∀ id ∈ b.ruleIds i, TwoSided (b.rule id))
    (hplain : Naming.Plain (slotsOf b (b.ruleIds i))) :
    ∃ b', (nameAll i).on b = (.ok ⟨⟩, b') ∧
      ((∀ id ∈ b.ruleIds i, (b'.rule id).expanded b'.namedClasses = (b.rule id).expanded b.namedClasses) ∧
          Naming.Kept b.namedClasses b'.namedClasses ↔
        Naming.Unambiguous b.namedClasses (lastClass b) ((slotsOf b (b.ruleIds i)).filter fun s => s.length > 5)) := by
  obtain ⟨b', hrun, hnamed⟩ := nameAll_on (Stage.ofBook hcount) hrules
  refine ⟨b', hrun, ?_⟩
  rw [expanded_iff hplain hnamed.form, hnamed.slots, hnamed.stage.classes]
  exact Naming.expand_names_iff hplain hkeys

def routineOf (classes : Classes) (rules : List Substitution) (ids : List RuleId) : Book :=
  { routines := #[{ content := .rules ids }]
    rules := (rules.map fun s => Rule.ofBody (.substitution s)).toArray
    namedClasses := classes }

def sixLower : Slot := ["a", "b", "c", "d", "e", "f"]

def sixUpper : Slot := ["A", "B", "C", "D", "E", "F"]

/-- Six letters for six letters, also after one of them; the first rule is there twice. -/
def capitals : Book :=
  routineOf [("lower", sixLower), ("class1", ["x"])] [{ input := some [sixLower], replacement := some [sixUpper] },
     { input := some [sixLower], replacement := some [["x"]], before := [sixUpper] }] [0, 1, 0]

theorem nameAll_preserves_capitals : ∃ b', (nameAll 0).on capitals = (.ok ⟨⟩, b') ∧ (∀ id ∈ capitals.ruleIds 0,
        (b'.rule id).expanded b'.namedClasses = (capitals.rule id).expanded capitals.namedClasses) ∧
      Naming.Kept capitals.namedClasses b'.namedClasses := by
  obtain ⟨b', hrun, hiff⟩ := nameAll_preserves_iff (b := capitals) (i := 0) (by decide) (by decide) (by decide)
    (by unfold Naming.Plain; decide)
  exact ⟨b', hrun, hiff.2 (by decide)⟩

/-- Six letters for one, and the six in reverse for six others, where a class has a name that is to come. -/
def mirrored : Book :=
  routineOf [("class3", ["x", "y"])] [{ input := some [sixLower], replacement := some [["x"]] },
     { input := some [sixLower.reverse], replacement := some [sixUpper] }] [0, 1]

/-- **A class is used again in another order, and a class whose name is next is lost.** -/
theorem nameAll_reorders : ∃ b', (nameAll 0).on mirrored = (.ok ⟨⟩, b') ∧
    ((mirrored.rule 1).expanded mirrored.namedClasses).slots = [sixLower.reverse, sixUpper] ∧
    ((b'.rule 1).expanded b'.namedClasses).slots = [sixLower, sixUpper] ∧
    Dict.get? mirrored.namedClasses "class3" = some ["x", "y"] ∧
    Dict.get? b'.namedClasses "class3" = some sixUpper := by
  obtain ⟨b', hrun, hnamed⟩ := nameAll_on (b := mirrored) (i := 0) (Stage.ofBook (by decide)) (by decide)
  have hclasses : b'.namedClasses = [("class3", sixUpper), ("class1", sixLower)] :=
    hnamed.stage.classes.trans (by decide)
  have hslots : (b'.rule 0).slots ++ (b'.rule 1).slots = [["@class1"], ["x"]] ++ [["@class1"], ["@class3"]] := by
    have := hnamed.slots.trans (show _ = [["@class1"], ["x"], ["@class1"], ["@class3"]] by decide)
    change (b'.rule 0).slots ++ ((b'.rule 1).slots ++ []) = _ at this
    rwa [List.append_nil] at this
  have hrule := (List.append_inj hslots (Rule.length_slots (hnamed.form 0))).2
  refine ⟨b', hrun, by decide, ?_, by decide, by rw [hclasses]; decide⟩
  unfold Rule.expanded
  rw [Rule.slots_mapSlots, hrule, hclasses]
  decide

end Optimise
end GlyphRules
