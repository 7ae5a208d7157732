import GlyphRules.Proofs.Shaping.Growth
import Mathlib.Data.List.Sort

/-! Where a mark hangs.

A mark notes how far away its base is. It counts what its rule can see, while the note is followed
through all of the buffer. So it leads to the base just where the rule can see everything between
the two (`attach_base_iff`). -/
namespace GlyphRules.Shaping

open Step Shape

variable {s t : Session} {a : Attachment} {at_ : Int} {n : Nat}

/-- Places in order are as far apart as they are counted just where none between them is left out. -/
lemma gap_eq_iff {l : List Nat} (h : l.SortedLT) {b d p q} (hq : l[b]? = some q) (hp : l[b + d]? = some p) :
    q + d ≤ p ∧ (p = q + d ↔ ∀ k, q < k → k < p → k ∈ l) := by
  induction d generalizing p with
  | zero =>
    obtain rfl := Option.some.inj (hq.symm.trans hp)
    exact ⟨le_rfl, fun _ k hk hk' => absurd (hk.trans hk') (lt_irrefl q), fun _ => rfl⟩
  | succ d ih =>
    obtain ⟨hlt, rfl⟩ := List.getElem?_eq_some_iff.1 hp
    have before : b + d < l.length := by omega
    obtain ⟨far, near⟩ := ih (List.getElem?_eq_getElem before)
    have step : l[b + d] < l[b + (d + 1)] := h.getElem_lt_getElem_iff.2 (by omega)
    refine ⟨by omega, fun heq k hk hk' => ?_, fun hall => ?_⟩
    · rcases (by omega : k < l[b + d] ∨ k = l[b + d]) with hk' | rfl
      · exact near.1 (by omega) k hk hk'
      · exact List.getElem_mem before
    · have last : l[b + d] = q + d := near.2 fun k hk hk' => hall k hk (hk'.trans step)
      by_contra hne
      -- The number after the last one would have to stand between two neighbours.
      obtain ⟨j, hj, hmem⟩ := List.mem_iff_getElem.1 (hall (l[b + d] + 1) (by omega) (by omega))
      have after : b + d < j := h.getElem_lt_getElem_iff.1 (by omega)
      have earlier : j < b + (d + 1) := h.getElem_lt_getElem_iff.1 (by omega)
      omega

lemma baseBefore_lt (h : baseBefore b a at_ n = .ok (some m)) : m < n := by
  induction n with
  | zero => cases h
  | succ n ih =>
    obtain ⟨item, -, h⟩ := bind_eq_ok.1 h
    split at h
    · split at h
      · obtain ⟨_, -, h⟩ := bind_eq_ok.1 h
        obtain ⟨clear, -, h⟩ := bind_eq_ok.1 h
        cases clear with
        | false => cases h
        | true =>
          cases h
          exact Nat.lt_succ_self _
      · exact (ih h).trans (Nat.lt_succ_self n)
    · exact (ih h).trans (Nat.lt_succ_self n)

namespace Shape

lemma on_glyphAt_bind {f} {r : β} (h : (glyphAt at_ >>= f).on s = (.ok r, t)) :
    ∃ p g, s.buffer.indexOf at_ = .ok p ∧ (f g).on s = (.ok r, t) := by
  obtain ⟨g, u, hg, h⟩ := on_bind_eq_ok h
  obtain ⟨i, hi, hg⟩ := on_ask_bind hg
  obtain ⟨p, hp, -⟩ := bind_eq_ok.1 hi
  cases hg
  exact ⟨p, _, hp, h⟩

lemma hangMark_hangs (h : (hangMark a n).on s = (.ok (), t)) :
    ∃ (b p q : Nat) (i : Item), findBase s.buffer a n = .ok (some b) ∧ s.buffer.indexOf n = .ok p ∧
      s.buffer.indexOf b = .ok q ∧ t.buffer.items[p]? = some i ∧ i.attachKind = some .mark ∧
      i.attachChain = some (some (b - n : Int)) := by
  obtain ⟨found, hfound, h⟩ := on_ask_bind h
  obtain ⟨-, mark, -, h⟩ := on_glyphAt_bind h
  cases found with
  | none => cases h
  | some b =>
    obtain ⟨q, base, hq, h⟩ := on_glyphAt_bind h
    split at h
    · obtain ⟨x, -, h⟩ := on_ofExcept_bind h
      obtain ⟨y, -, h⟩ := on_ofExcept_bind h
      obtain ⟨_, u, hmoved, h⟩ := on_bind_eq_ok h
      obtain ⟨p, hp, hmoved⟩ := on_ask_bind hmoved
      obtain ⟨i, hi, hmoved⟩ := on_ask_bind hmoved
      obtain ⟨v, -, hmoved⟩ := on_ofExcept_bind hmoved
      cases hmoved
      rw [hang, on_bind_ok (on_ask_ok hp)] at h
      cases h
      refine ⟨b, p, q, { i.setPosition v with attachKind := some .mark, attachChain := some (some (b - n)) },
        hfound, hp, hq, ?_, rfl, rfl⟩
      simp [Buffer.alter, itemAt_eq_ok.1 hi]
    · cases h

end Shape

/-- **A mark leads to its base just where its rule can see everything between them.** -/
theorem attach_base_iff (flags : Flags) (hs : s.buffer.Sound) (ha : a.isCursive = false)
    (h : (attach a flags n).on s = (.ok none, t)) :
    ∃ (b p q : Nat) (i : Item) (distance : Int), findBase s.buffer a n = .ok (some b) ∧
      s.buffer.indexOf n = .ok p ∧ s.buffer.indexOf b = .ok q ∧ t.buffer.items[p]? = some i ∧
      i.attachKind = some .mark ∧ i.attachChain = some (some distance) ∧
      (p + distance = q ↔ ∀ k, q < k → k < p → k ∈ s.buffer.view.places) := by
  unfold attach at h
  rw [if_neg (by simp [ha])] at h
  obtain ⟨_, u, h, hpure⟩ := on_bind_eq_ok h
  cases hpure
  obtain ⟨b, p, q, i, hbase, hp, hq, hi, hkind, hchain⟩ := hangMark_hangs h
  refine ⟨b, p, q, i, _, hbase, hp, hq, hi, hkind, hchain, ?_⟩
  have hlt : b < n := baseBefore_lt hbase
  have sorted : s.buffer.view.places.SortedLT := (List.pairwise_lt_range.sublist hs).sortedLT
  have gap := (gap_eq_iff sorted (itemAt_eq_ok.1 hq)
    (by rw [Nat.add_sub_cancel' hlt.le]; exact itemAt_eq_ok.1 hp)).2
  rw [← gap]
  omega

/-- A base, a ligature and a mark on the base. -/
def stack : Session :=
  let item (glyph category : String) : Item :=
    { glyph := some glyph, category? := some category, state := some { gid := 0, position := {} } }
  { book := {}, font := ⟨[]⟩, characters := {}
    buffer := { items := [item "a" "base", item "fi" "ligature", item "m" "mark"] } }

def anchors : Attachment :=
  { baseName := none, markName := none, bases := [("a", .int 0, .int 0)], marks := [("m", .int 0, .int 0)] }

theorem attach_base_iff_seen : ∃ s t, (setMask (.bits 0) none none).on stack = (.ok (), s) ∧
    (attach anchors (.bits 0) 2).on s = (.ok none, t) ∧
    ∃ (p : Nat) (i : Item) (distance : Int), t.buffer.items[p]? = some i ∧
      i.attachChain = some (some distance) ∧ p + distance = 0 := by
  refine ⟨_, _, rfl, rfl, ?_⟩
  have fresh : (setMask (.bits 0) none none).on stack = (.ok (), _) := rfl
  obtain ⟨b, p, q, i, distance, hb, hp, hq, hi, -, hchain, hiff⟩ := attach_base_iff (n := 2) (a := anchors) (.bits 0)
    (setMask_sound fresh) rfl rfl
  obtain rfl : b = 0 := by
    cases hb
    rfl
  cases hp
  cases hq
  exact ⟨2, i, distance, hi, hchain, hiff.2 fun k _ hk => (List.mem_range).2 (hk.trans (by decide))⟩

/-- **A mark that hangs on what its rule cannot see.** The ligature is hidden, and the note leads to it. -/
theorem attach_misses_base : ∃ s t, (setMask (.bits 4) none none).on stack = (.ok (), s) ∧
    findBase s.buffer anchors 1 = .ok (some 0) ∧ s.buffer.indexOf 1 = .ok 2 ∧ s.buffer.indexOf 0 = .ok 0 ∧
    (attach anchors (.bits 4) 1).on s = (.ok none, t) ∧
    t.buffer.items.map (·.attachChain) = [none, none, some (some (-1))] :=
  ⟨_, _, rfl, rfl, rfl, rfl, rfl, rfl⟩

end GlyphRules.Shaping
