import Mathlib.Data.List.Induction
import GlyphRules.Proofs.Book.Update
import GlyphRules.Proofs.Markup.RuleTrip

/-! Routines as markup, there and back.

Reading a routine adds it to a book and then gives it its rules one by one; `readRoutines_on` says that this is the
same as adding whole routines. A routine comes back exactly if its rules do (`routine_trip_iff`). -/
namespace GlyphRules

open List

variable {b : Book} {n : Node} {i : RoutineId}

/-! ### Routines that are added -/

namespace Book

def install (b : Book) (x : Routine × List Rule) : Book :=
  { b with routines := b.routines.push { x.1 with content := .rules (List.range' b.rules.size x.2.length) }
           rules := b.rules ++ x.2.toArray }

lemma modify_push {α : Type} (xs : Array α) (x) (f) : (xs.push x).modify xs.size f = xs.push (f x) := by
  refine Array.ext_getElem? fun i => ?_
  rw [Array.getElem?_modify, Array.getElem?_push, Array.getElem?_push]
  by_cases hi : i = xs.size
  · rw [if_pos hi, if_pos hi, if_pos hi.symm]
    rfl
  · rw [if_neg hi, if_neg hi, if_neg (Ne.symm hi)]

lemma routine_install (b : Book) (x) : (b.install x).routine b.routines.size =
    { x.1 with content := .rules (List.range' b.rules.size x.2.length) } := by
  rw [routine_eq, install, Array.getElem?_push_size]
  rfl

lemma appendRule_install (b : Book) (x) (r) :
    (b.install x).appendRule b.routines.size r = b.install (x.1, x.2 ++ [r]) := by
  have hids : ((b.install x).addRule r).2.ruleIds b.routines.size = List.range' b.rules.size x.2.length :=
    ruleIds_rules (congrArg Routine.content (b.routine_install x))
  have hnew : ((b.install x).addRule r).1 = b.rules.size + x.2.length := by simp [install, addRule]
  show ((b.install x).addRule r).2.setRules b.routines.size
    (((b.install x).addRule r).2.ruleIds b.routines.size ++ [((b.install x).addRule r).1]) = _
  rw [hids, hnew, ← List.range'_1_concat]
  have hrules : (b.rules ++ x.2.toArray).push r = b.rules ++ (x.2 ++ [r]).toArray := by simp
  unfold setRules alterRoutine addRule install
  simp only [modify_push, Routine.withRules, length_append, length_singleton, hrules]

lemma foldl_appendRule (b : Book) {header} (h : header.content = .rules []) (rules) :
    rules.foldl (fun c r => c.appendRule b.routines.size r) (b.addRoutine header).2 = b.install (header, rules) := by
  -- Each rule goes to the end, so the induction takes the last one off.
  induction rules using List.reverseRecOn with
  | nil =>
    obtain ⟨_, content⟩ := header
    cases h
    simp [install, addRoutine]
  | append_singleton rules r ih =>
    rw [foldl_append, ih]
    exact b.appendRule_install (header, rules) r

structure Holds (b : Book) (i : RoutineId) (x : Routine × List Rule) : Prop where
  known : i < b.routines.size
  rules : ∃ ids, b.routine i = { x.1 with content := .rules ids } ∧ ids.map b.rule = x.2 ∧ ∀ id ∈ ids, id < b.rules.size

lemma holds_install (b : Book) (x) : Holds (b.install x) b.routines.size x := by
  refine ⟨by simp [install], _, b.routine_install x, ?_, ?_⟩
  · refine ext_getElem (by simp) fun n _ hn => ?_
    rw [getElem_map, getElem_range', Nat.one_mul, rule_eq, install,
      Array.getElem?_append_right (Nat.le_add_right _ _), Nat.add_sub_cancel_left, List.getElem?_toArray,
      List.getElem?_eq_getElem hn]
    rfl
  · intro id hid
    have hsize : (b.install x).rules.size = b.rules.size + x.2.length := by simp [install]
    rw [hsize]
    exact (mem_range'_1.1 hid).2

lemma Holds.install (h : Holds b i x)
    (y) : Holds (b.install y) i x := by
  obtain ⟨ids, hroutine, hids, hknown⟩ := h.rules
  refine ⟨?_, ids, ?_, ?_, ?_⟩
  · simp only [Book.install, Array.size_push]
    exact Nat.lt_succ_of_lt h.known
  · rw [← hroutine, routine_eq, routine_eq, Book.install, Array.getElem?_push_lt h.known,
      Array.getElem?_eq_getElem h.known]
  · rw [← hids]
    refine map_congr_left fun id hid => ?_
    rw [rule_eq, rule_eq, Book.install, Array.getElem?_append_left (hknown id hid)]
  · intro id hid
    have hsize : (b.install y).rules.size = b.rules.size + y.2.length := by simp [Book.install]
    rw [hsize]
    exact Nat.lt_add_right _ (hknown id hid)

lemma holds_installed (b) (xs) :
    Forall₂ (Holds (xs.foldl install b)) (List.range' b.routines.size xs.length) xs := by
  have keep {c} {i} {x} (h : Holds c i x) (ys : List (Routine × List Rule)) :
      Holds (ys.foldl install c) i x := by
    induction ys generalizing c with
    | nil => exact h
    | cons y ys ih => exact ih (h.install y)
  induction xs generalizing b with
  | nil => exact .nil
  | cons x xs ih =>
    have hrest := ih (b.install x)
    have hsize : (b.install x).routines.size = b.routines.size + 1 := Array.size_push ..
    rw [hsize] at hrest
    exact .cons (keep (b.holds_install x) xs) hrest

lemma Holds.rulesOf (h : Holds b i x) : b.rulesOf i = x.2 := by
  obtain ⟨ids, hroutine, hids, -⟩ := h.rules
  rw [Book.rulesOf, ruleIds_rules (congrArg Routine.content hroutine), hids]

end Book

namespace Markup

open Step Book

/-! ### Routines -/

def decodeWhole (n : Node) : Except Fault (Routine × List Rule) := do
  let header ← decodeHeader n
  return (header, ← n.children.mapM decodeRule)

def IsRule (n : Node) : Prop := n.tag? = some "substitution" ∨ n.tag? = some "positioning"

lemma ofTag?_of_lower (h : n.tag? = some tag)
    (hlower : tag.toList.map Char.toLower = tag.toList) : RuleTag.ofTag? n = RuleTag.named? tag := by
  have same : tag.toLower = tag := by
    show tag.map Char.toLower = tag
    rw [← String.toList_inj, String.toList_map, hlower]
  rw [RuleTag.ofTag?, h, Option.bind_some, same]

lemma decodeEntry_on (h : IsRule n) (fuel) (b) :
    (decodeEntry (fuel + 1) n).on b = ((decodeRule n).map .rule, b) := by
  have read e :
      (do return Entry.rule (← ofExcept e) : Act _).on b = (e.map .rule, b) := by
    cases e <;> rfl
  rcases h with h | h
  · have hkind : RuleTag.ofTag? n = some .substitution := ofTag?_of_lower h (by decide)
    have hrule : decodeRule n = decodeSubstitution n := if_neg (by rw [h]; decide)
    rw [decodeEntry, hkind, hrule]
    exact read _
  · have hkind : RuleTag.ofTag? n = some .positioning := ofTag?_of_lower h (by decide)
    have hrule : decodeRule n = decodePositioning n := if_pos h
    rw [decodeEntry, hkind, hrule]
    exact read _

lemma content_decodeHeader (h : decodeHeader n = .ok header) : header.content = .rules [] := by
  obtain ⟨flags, -, h⟩ := bind_eq_ok.1 h
  cases h
  rfl

lemma readRoutine_on (h : ∀ c ∈ n.children, IsRule c) {b'} :
    (readRoutine n).on b = (.ok i, b') ↔ ∃ x, decodeWhole n = .ok x ∧ i = b.routines.size ∧ b' = b.install x := by
  unfold readRoutine decodeRoutine decodeWhole
  cases hheader : decodeHeader n with
  | error e =>
    exact ⟨fun hrun => (by cases hrun), fun ⟨_, hx, _⟩ => (by cases hx)⟩
  | ok header =>
    have rules {t} : (n.children.forM fun c => do putEntry b.routines.size (← decodeEntry (2 * n.size + 1) c)).on
        (b.addRoutine header).2 = (.ok ⟨⟩, t) ↔ ∃ rs, n.children.mapM decodeRule = .ok rs ∧
          t = rs.foldl (fun c r => c.appendRule b.routines.size r) (b.addRoutine header).2 := by
      refine on_forM_read (fun c hc s r hr => ?_) fun c hc s e he => ⟨s, ?_⟩
      · rw [on_bind_ok ((decodeEntry_on (h c hc) _ s).trans (by rw [hr]; rfl))]
        rfl
      · exact on_bind_error ((decodeEntry_on (h c hc) _ s).trans (by rw [he]; rfl)) _
    simp only [b.foldl_appendRule (content_decodeHeader hheader)] at rules
    rw [on_bind_ok (on_ofExcept _ b), on_get_bind, ok_bind, on_bind_ok (on_set b _), on_bind_iff]
    simp only [bind_eq_ok, pure_eq_ok]
    constructor
    · rintro ⟨_, _, hrules, hdone⟩
      obtain ⟨rs, hrs, rfl⟩ := rules.1 hrules
      cases hdone
      exact ⟨(header, rs), ⟨rs, hrs, rfl⟩, rfl, rfl⟩
    · rintro ⟨_, ⟨rs, hrs, rfl⟩, rfl, rfl⟩
      exact ⟨_, _, rules.2 ⟨rs, hrs, rfl⟩, rfl⟩

lemma readRoutines_on {ns : List Node} (h : ∀ n ∈ ns, ∀ c ∈ n.children, IsRule c) {b'}
    {order} : (ns.mapM readRoutine).on b = (.ok order, b') ↔
      ∃ xs, ns.mapM decodeWhole = .ok xs ∧ order = List.range' b.routines.size xs.length ∧ b' = xs.foldl install b := by
  -- A routine gets the next number of the book that it is read into, which has grown by one each time.
  induction ns generalizing b b' order with
  | nil =>
    constructor
    · intro hrun
      cases hrun
      exact ⟨[], rfl, rfl, rfl⟩
    · rintro ⟨xs, hxs, rfl, rfl⟩
      cases hxs
      rfl
  | cons n ns ih =>
    obtain ⟨hn, hns⟩ := forall_mem_cons.1 h
    have hsize x : (b.install x).routines.size = b.routines.size + 1 := Array.size_push ..
    simp only [mapM_cons, on_bind_iff, readRoutine_on hn, ih hns, bind_eq_ok, pure_eq_ok]
    constructor
    · rintro ⟨_, _, ⟨x, hx, rfl, rfl⟩, _, _, ⟨xs, hxs, rfl, rfl⟩, hdone⟩
      cases hdone
      exact ⟨x :: xs, ⟨x, hx, xs, hxs, rfl⟩, by rw [hsize]; rfl, rfl⟩
    · rintro ⟨_, ⟨x, hx, xs, hxs, rfl⟩, rfl, rfl⟩
      exact ⟨_, _, ⟨x, hx, rfl, rfl⟩, _, _, ⟨xs, hxs, rfl, rfl⟩, by rw [hsize]; rfl⟩

structure PlainRoutine (b : Book) (i : RoutineId) : Prop where
  name : ∃ n, (b.routine i).name = some n ∧ n ≠ ""
  flags : ∃ n, (b.routine i).flags = .bits n
  rules : ∀ r ∈ b.rulesOf i, PlainRule r

/-- A routine all of which comes back. -/
structure RoutineFaithful (b : Book) (i : RoutineId) : Prop where
  name : ∀ n ∈ (b.routine i).name, Writable n
  address : ∃ a, joinedAddress (b.routine i).address = .ok a ∧ ∀ t ∈ a, Writable t
  rules : ∀ r ∈ b.rulesOf i, RuleFaithful b (2 * b.routines.size) r

structure SameAs (b : Book) (i : RoutineId) (x : Routine × List Rule) : Prop where
  name : x.1.name = (b.routine i).name
  flags : x.1.flags = (b.routine i).flags
  rules : Forall₂ SameRule (b.rulesOf i) x.2

section Trip

lemma routineMarkup_eq_ok (h : PlainRoutine b i) : routineMarkup b i = .ok n ↔
    ∃ a ns, (joinedAddress (b.routine i).address = .ok a ∧ ∀ t ∈ a, Writable t) ∧
      (∀ t ∈ (b.routine i).name, Writable t) ∧
      (b.rulesOf i).mapM (encodeRule b (2 * b.routines.size + 1)) = .ok ns ∧
      n = .element "routine" (optional "flags" (flagsText (b.routine i).flags) ++ optional "address" a ++
        optional "name" (b.routine i).name) none ns := by
  obtain ⟨name, hname, hgiven⟩ := h.name
  have hfilter : (b.routine i).name.filter (!·.isEmpty) = (b.routine i).name := by
    rw [hname]
    simpa [Option.filter] using hgiven
  unfold routineMarkup depth encodeRoutine routineAttributes
  rw [hfilter]
  simp only [bind_eq_ok, attribute?_eq_ok]
  constructor
  · rintro ⟨as, ⟨_, ⟨-, rfl⟩, a, ha, _, ⟨hwritable, rfl⟩, _, ⟨hnames, rfl⟩, has⟩, ns, hns, hn⟩
    cases has
    cases hn
    exact ⟨a, ns, ⟨ha, hwritable⟩, hnames, hns, rfl⟩
  · rintro ⟨a, ns, ⟨ha, hwritable⟩, hnames, hns, rfl⟩
    exact ⟨_, ⟨_, ⟨writable_flagsText h.flags, rfl⟩, a, ha, _, ⟨hwritable, rfl⟩, _, ⟨hnames, rfl⟩, rfl⟩, ns, hns, rfl⟩

lemma decodeBits_eq (h : ∃ k, f = .bits k) (hn : n.get? "flags" = flagsText f) :
    decodeBits n = .ok f := by
  obtain ⟨k, rfl⟩ := h
  rw [decodeBits, hn]
  unfold flagsText
  by_cases hk : k = 0
  · rw [hk]
    rfl
  · rw [if_pos (by simpa [Flags.counts] using hk)]
    have htext : some (Flags.bits k).written = some (toString k) := rfl
    rw [htext, readNumber?_toString]
    rfl

lemma isRule_routineMarkup (h : PlainRoutine b i) (hn : routineMarkup b i = .ok n) : ∀ c ∈ n.children, IsRule c := by
  obtain ⟨a, ns, -, -, hns, rfl⟩ := (routineMarkup_eq_ok h).1 hn
  intro c hc
  obtain ⟨r, hr, hc⟩ := except_mapM_mem hns hc
  obtain ⟨-, rfl⟩ := (encodeRule_eq_ok (h.rules r hr)).1 hc
  rcases (h.rules r hr).body with ⟨s, hbody⟩ | ⟨p, hbody, -⟩
  · exact .inl (by simp [ruleNode, hbody, bodyParts])
  · exact .inr (by simp [ruleNode, hbody, bodyParts])

/-- **A routine comes back the same exactly if its rules do** and its name and address may be written. -/
lemma routine_trip_iff (h : PlainRoutine b i) :
    (∃ n x, routineMarkup b i = .ok n ∧ decodeWhole n = .ok x ∧ SameAs b i x) ↔ RoutineFaithful b i := by
  have rules := except_mapM_trip (f := encodeRule b (2 * b.routines.size + 1)) (g := decodeRule) (R := SameRule)
    (l := b.rulesOf i)
  constructor
  · rintro ⟨n, x, hn, hx, hsame⟩
    obtain ⟨a, ns, haddress, hname, hns, rfl⟩ := (routineMarkup_eq_ok h).1 hn
    obtain ⟨header, -, hx⟩ := bind_eq_ok.1 hx
    obtain ⟨rs, hrs, hx⟩ := bind_eq_ok.1 hx
    cases hx
    refine ⟨hname, ⟨a, haddress⟩, fun r hr => ?_⟩
    exact (rule_trip_iff (h.rules r hr)).1 (rules.1 ⟨ns, rs, hns, hrs, hsame.rules⟩ r hr)
  · intro hf
    obtain ⟨a, haddress⟩ := hf.address
    obtain ⟨ns, rs, hns, hrs, hsame⟩ := rules.2 fun r hr => (rule_trip_iff (h.rules r hr)).2 (hf.rules r hr)
    refine ⟨_, (?header, rs), (routineMarkup_eq_ok h).2 ⟨a, ns, haddress, hf.name, hns, rfl⟩, ?_, ?_, ?_, hsame⟩
    rotate_left
    · rw [decodeWhole, decodeHeader, decodeBits_eq h.flags (by simp [get?_element, Dict.get?_append, get?_optional])]
      show ns.mapM decodeRule >>= _ = _
      rw [hrs]
      rfl
    · simp [get?_element, Dict.get?_append, get?_optional]
    · rfl

end Trip

end Markup

end GlyphRules
