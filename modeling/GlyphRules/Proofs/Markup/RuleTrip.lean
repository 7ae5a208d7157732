import GlyphRules.Markup.RuleMarkup
import GlyphRules.Proofs.Dict
import GlyphRules.Proofs.Number
import GlyphRules.Proofs.Step

/-! Rules as markup, there and back.

Writing may refuse a text, and reading what was written. Otherwise slots of glyphs and whole numbers
come back as they are, but a side without slots as missing, and the flags of a rule as a text.
`RuleFaithful` says when a rule comes back the same; the two halves meet at the elements that are
written. -/
namespace GlyphRules.Markup

open Step List Number Dict ValueRecord

variable {routine : RoutineId → Except Fault Node}

variable {s : Substitution} {as : List (String × String)} {n : Node} {ns : List Node} {tag : String}
  {calls : Option Calls} {p : Positioning}

/-! ### Texts -/

/-- A text that may stand in markup. -/
def Writable (s : String) : Prop := s ≠ nameless ∧ isAllowed s = true
deriving Decidable

lemma allowed_eq_ok {s t} : allowed s = .ok t ↔ Writable s ∧ t = s := by
  unfold allowed Writable
  by_cases hname : s = nameless
  · rw [if_pos (beq_iff_eq.2 hname)]
    exact ⟨fun h => (by cases h), fun h => absurd hname h.1.1⟩
  · rw [if_neg (by simpa using hname)]
    cases isAllowed s with
    | true => simp [hname, eq_comm]
    | false => simp

lemma writable_toString (n : Int) : Writable (toString n) := by
  constructor
  · intro heq
    have hat : '@' ∈ (toString n).toList := heq ▸ (by decide)
    rcases mem_toString hat with h | h
    · cases h
    · revert h
      decide
  · refine all_eq_true.2 fun c hc => ?_
    rcases mem_toString hc with rfl | hdigit
    · decide
    · have := toNat_of_isDigit hdigit
      simp only [Bool.and_eq_true, Bool.not_eq_true', decide_eq_false_iff_not, bne_iff_ne, Bool.and_eq_false_iff]
      omega

def optional (key : String) (value : Option String) : List (String × String) := (value.map fun t => (key, t)).toList

lemma attribute?_eq_ok {value} :
    attribute? key value = .ok as ↔ (∀ t ∈ value, Writable t) ∧ as = optional key value := by
  unfold attribute? optional
  cases value with
  | none => simp
  | some v =>
    simp only [bind_eq_ok, allowed_eq_ok, pure_eq_ok, Option.mem_some_iff, forall_eq']
    exact ⟨fun ⟨_, ⟨hv, heq⟩, h⟩ => ⟨hv, heq ▸ h⟩, fun ⟨hv, h⟩ => ⟨v, ⟨hv, rfl⟩, h⟩⟩

lemma get?_optional (key k) (value) :
    get? (optional key value) k = if key = k then value else none := by
  unfold optional get?
  cases value with
  | none => exact (ite_self none).symm
  | some v => by_cases hk : key = k <;> simp

lemma get?_element (tag) (as) (text) (children)
    (k) : (Node.element tag as text children).get? k = get? as k := rfl

@[simp] lemma tag?_element (tag) (as) (text)
    (children) : (Node.element tag as text children).tag? = some tag := rfl

lemma readNumber?_toString (n) : readNumber? (some (toString n)) = .ok (some n) := by
  unfold readNumber?
  split
  · next htext => cases htext
  · next htext => exact absurd (Option.some.inj htext) (toString_ne_empty n)
  · next t _ htext =>
    cases htext
    rw [read_toString]
    rfl


/-! ### Slots -/

/-- A glyph that may stand in markup; a missing one may. -/
def GlyphWritable (g : String) : Prop := g = nameless ∨ isAllowed g = true
deriving Decidable

def SlotsWritable (slots : List Slot) : Prop := ∀ s ∈ slots, ∀ g ∈ s, GlyphWritable g
deriving Decidable

def glyphNode (g : String) : Node := .element "glyph" [] (if g = nameless then none else some g) []

def slotNode (s : Slot) : Node := .element "slot" [] none (s.map glyphNode)

/-- A part of a rule; one without content is not written. -/
def part (tag : String) (ns : List Node) : List Node := if ns = [] then [] else [.element tag [] none ns]

def slotsPart (tag : String) (slots : List Slot) : List Node := part tag (slots.map slotNode)

lemma encodeGlyph_eq_ok : encodeGlyph g = .ok n ↔ GlyphWritable g ∧ n = glyphNode g := by
  unfold encodeGlyph GlyphWritable glyphNode
  by_cases hname : g = nameless
  · simp [hname, pure_eq_ok]
  · rw [if_neg (by simpa using hname), bind_eq_ok_of allowed_eq_ok, pure_eq_ok]
    simp [hname, Writable]

lemma encodeSlot_eq_ok {s} : encodeSlot s = .ok n ↔ (∀ g ∈ s, GlyphWritable g) ∧ n = slotNode s := by
  rw [encodeSlot, bind_eq_ok_of (mapM_eq_ok_iff fun _ _ => encodeGlyph_eq_ok), pure_eq_ok]
  rfl

lemma encodeSlots_eq_ok :
    encodeSlots tag slots = .ok ns ↔ SlotsWritable slots ∧ ns = slotsPart tag slots := by
  unfold encodeSlots slotsPart part SlotsWritable
  by_cases hslots : slots = []
  · simp [hslots]
  · rw [if_neg (by simpa using hslots), bind_eq_ok_of (mapM_eq_ok_iff fun _ _ => encodeSlot_eq_ok), pure_eq_ok,
      if_neg (by simpa using hslots)]

lemma map_text_glyphNode (gs : List String) : (gs.map glyphNode).map (fun n => n.text?.getD nameless) = gs := by
  rw [map_map]
  refine (map_congr_left fun g _ => ?_).trans (map_id gs)
  by_cases hname : g = nameless <;> simp [glyphNode, Node.text?, hname]

/-- What comes back for slots: no slots come back as missing. -/
def returned (slots : List Slot) : Option (List Slot) := if slots = [] then none else some slots

lemma returned_getD (slots) : (returned slots).getD [] = slots := by
  unfold returned
  split
  · next h => rw [h]; rfl
  · rfl

lemma returned_eq_iff : returned (side.getD []) = side ↔ side ≠ some [] := by
  unfold returned
  cases side with
  | none => simp
  | some slots => cases slots <;> simp

lemma decodeSlots_slotsPart (tag) (slots) :
    decodeSlots (slotsPart tag slots).head? = returned slots := by
  have slot s : ((slotNode s).findAll "glyph").map (fun g => g.text?.getD nameless) = s := by
    rw [slotNode, Node.findAll, Node.children, filter_eq_self.2, map_text_glyphNode]
    simp [glyphNode]
  unfold slotsPart part returned
  by_cases hslots : slots = []
  · simp [hslots, decodeSlots]
  · simp [hslots, decodeSlots, Node.children, Function.comp_def, slot]

lemma find?_part (tag other) (ns) :
    (part tag ns).find? (·.tag? == some other) = if tag = other then (part tag ns).head? else none := by
  unfold part
  split
  · exact (ite_self none).symm
  · by_cases htag : tag = other <;> simp

lemma findAll_part (child) {ns} (hns : ∀ n ∈ ns, n.tag? = some child)
    (hchild : child ≠ "routine") : ∀ c ∈ part tag ns, c.findAll "routine" = [] := by
  unfold part
  split
  · exact forall_mem_nil _
  · refine forall_mem_singleton.2 (filter_eq_nil_iff.2 fun n hn => ?_)
    simpa [hns n hn] using hchild

/-! ### Calls -/

def CallWritable (routine : RoutineId → Except Fault Node) (l : Lookup) : Prop := ∃ n, encodeCall routine l = .ok n

def callNode (routine : RoutineId → Except Fault Node) (l : Lookup) : Node :=
  (encodeCall routine l).toOption.getD (.comment "")

def callSlotNode (routine : RoutineId → Except Fault Node) (slot : Option (List Lookup)) : Node :=
  .element "slot" [] none
    (if slot.getD [] = [] then [.element "lookup" [] none []] else (slot.getD []).map (callNode routine))

def callsPart (routine : RoutineId → Except Fault Node) (calls : Option Calls) : List Node :=
  part "lookups" ((calls.getD []).map (callSlotNode routine))

lemma encodeCall_eq_ok : encodeCall routine l = .ok n ↔ CallWritable routine l ∧ n = callNode routine l := by
  unfold CallWritable callNode
  cases encodeCall routine l <;> simp [Except.toOption, eq_comm]

lemma encodeCallSlot_eq_ok : encodeCallSlot routine slot = .ok n ↔
    (∀ l ∈ slot.getD [], CallWritable routine l) ∧ n = callSlotNode routine slot := by
  unfold encodeCallSlot callSlotNode
  split
  · simp [eq_comm]
  · simp [eq_comm]
  · next ls hls =>
    rw [bind_eq_ok_of (mapM_eq_ok_iff fun _ _ => encodeCall_eq_ok), pure_eq_ok, Option.getD_some,
      if_neg fun h => hls (by rw [h])]

lemma encodeCalls_eq_ok : encodeCalls routine calls = .ok ns ↔
    (∀ l ∈ (calls.getD []).entries, CallWritable routine l) ∧ ns = callsPart routine calls := by
  unfold encodeCalls callsPart part
  split
  · simp [Calls.entries]
  · simp [Calls.entries]
  · next calls hcalls =>
    have entries : (∀ l ∈ calls.entries, CallWritable routine l) ↔
        ∀ slot ∈ calls, ∀ l ∈ slot.getD [], CallWritable routine l := by
      simp only [Calls.entries, mem_flatten, mem_filterMap]
      constructor
      · intro h slot hslot l hl
        cases slot with
        | none => cases hl
        | some ls => exact h l ⟨ls, ⟨_, hslot, rfl⟩, hl⟩
      · rintro h l ⟨ls, ⟨_, hslot, rfl⟩, hl⟩
        exact h _ hslot l hl
    rw [bind_eq_ok_of (mapM_eq_ok_iff fun _ _ => encodeCallSlot_eq_ok), pure_eq_ok, Option.getD_some, entries,
      if_neg (by simpa using fun h => hcalls (by rw [h]))]

/-- Calls are looked for one level too high, so none is found and reading them never fails. -/
lemma decodeEmptyCalls_isOk (h : ∀ c ∈ n.children, c.findAll "routine" = []) :
    ∃ calls, decodeEmptyCalls n = .ok calls := by
  have hnone : (n.children.any fun c => !(c.findAll "routine").isEmpty) = false := by
    refine any_eq_false.2 fun c hc => ?_
    rw [h c hc]
    decide
  unfold decodeEmptyCalls
  split
  · rw [if_neg (by rw [hnone]; decide)]
    exact ⟨_, rfl⟩
  · exact ⟨_, rfl⟩

/-! ### Values -/

def Whole (s : Scalar) : Prop := ∃ n, s = .int n

instance : DecidablePred Whole
  | .fixed (.int n) => isTrue ⟨n, rfl⟩
  | .fixed (.real _) => isFalse fun ⟨_, h⟩ => (by cases h)
  | .varying _ => isFalse fun ⟨_, h⟩ => (by cases h)

def WholeParts (v : ValueRecord) : Prop := ∀ part ∈ v.parts, ∀ s ∈ part, Whole s
deriving Decidable

def countedParts (v : ValueRecord) : List (Option Scalar) := v.parts.map (·.filter Scalar.counts)

def SameValue (v u : ValueRecord) : Prop := countedParts u = countedParts v ∧ u.vertical = v.vertical

lemma sameValue_settled : SameValue v v.settled ↔ v.vertical = false := by
  unfold SameValue countedParts settled parts
  simp only [map_cons, Option.filter_filter, Bool.and_self, true_and]
  exact eq_comm

lemma encodePart_eq (key) (s) :
    encodePart key s = optional key ((s.filter Scalar.counts).map Scalar.text) := by
  unfold encodePart optional
  cases s with
  | none => rfl
  | some s => cases hs : s.counts <;> simp [Option.filter, hs]

lemma decodePart_eq {p : Option Scalar} (hp : ∀ s ∈ p, Whole s)
    (hn : n.get? key = (p.filter Scalar.counts).map Scalar.text) : decodePart key n = .ok (p.filter Scalar.counts) := by
  rw [decodePart, hn]
  cases hcounted : p.filter Scalar.counts with
  | none => rfl
  | some s =>
    obtain ⟨k, rfl⟩ := hp s (Option.filter_eq_some_iff.1 hcounted).1
    have htext : Option.map Scalar.text (some (Scalar.int k)) = some (toString k) := rfl
    rw [htext, readNumber?_toString]
    rfl

def valueNode (v : ValueRecord) : Node :=
  .element "valuerecord" (encodePart "xPlacement" v.xPlacement ++ encodePart "yPlacement" v.yPlacement ++
    encodePart "xAdvance" v.xAdvance ++ encodePart "yAdvance" v.yAdvance) none []

lemma encodeValue_eq_ok : encodeValue v = .ok n ↔ v.isSome ∧ n = valueNode (v.getD {}) := by
  cases v <;> simp [encodeValue, valueNode, eq_comm]

lemma decodeValue_valueNode (h : WholeParts v) : decodeValue (valueNode v) = .ok v.settled := by
  have part {key} {p} hp
      (hget : (valueNode v).get? key = (p.filter Scalar.counts).map Scalar.text) := decodePart_eq (h p hp) hget
  simp only [valueNode, get?_element, encodePart_eq, get?_append, get?_optional] at part
  unfold decodeValue
  simp only [valueNode, encodePart_eq]
  rw [part (p := v.xPlacement) (by simp [parts]) (by simp),
    part (p := v.yPlacement) (by simp [parts]) (by simp),
    part (p := v.xAdvance) (by simp [parts]) (by simp),
    part (p := v.yAdvance) (by simp [parts]) (by simp)]
  rfl

/-! ### Rules -/

structure PlainRule (r : Rule) : Prop where
  languages : r.hasLanguages = false
  flags : ∃ n, r.flags = .bits n
  body : (∃ s, r.body = .substitution s) ∨ ∃ p, r.body = .positioning p ∧ ∀ v ∈ p.values, ∀ u ∈ v, WholeParts u

lemma writable_flagsText (h : ∃ n, f = .bits n) : ∀ t ∈ flagsText f, Writable t := by
  obtain ⟨n, rfl⟩ := h
  unfold flagsText
  intro t ht
  split at ht
  · cases ht
    exact writable_toString n
  · cases ht

lemma writable_reverseText (body) : ∀ t ∈ reverseText body, Writable t := by
  unfold reverseText
  intro t ht
  split at ht
  · split at ht
    · cases ht
      decide
    · cases ht
  · cases ht

lemma languagesText_eq {r : Rule} (h : r.hasLanguages = false) : languagesText r.languages = .ok none := by
  unfold Rule.hasLanguages at h
  cases hl : r.languages with
  | none => rfl
  | some l =>
    rw [hl] at h
    cases l with
    | pairs systems =>
      cases systems with
      | nil => rfl
      | cons => cases h
    | text s =>
      have hs : s.isEmpty = true := by simpa [Languages.isEmpty] using h
      simp [languagesText, hs]

lemma headAttributes_eq_ok (hlanguages : r.hasLanguages = false) (hflags : ∃ n, r.flags = .bits n) :
    headAttributes r = .ok as ↔ (∀ t ∈ addressText r.address, Writable t) ∧
      as = optional "address" (addressText r.address) ++ optional "reverse" (reverseText r.body) ++
        optional "flags" (flagsText r.flags) := by
  rw [headAttributes, languagesText_eq hlanguages]
  simp only [bind_eq_ok, ok_bind, attribute?_eq_ok, pure_eq_ok]
  constructor
  · rintro ⟨_, ⟨haddress, rfl⟩, _, ⟨-, rfl⟩, _, ⟨-, rfl⟩, _, ⟨-, rfl⟩, rfl⟩
    exact ⟨haddress, by simp [optional]⟩
  · rintro ⟨haddress, rfl⟩
    exact ⟨_, ⟨haddress, rfl⟩, _, ⟨fun _ ht => (by cases ht), rfl⟩, _, ⟨writable_reverseText r.body, rfl⟩,
      _, ⟨writable_flagsText hflags, rfl⟩, by simp [optional]⟩

def flagsNumber? : Flags → Option Int
  | .unset => some 0
  | .bits n => some n
  | .text _ => none

/-- The same glyphs under the same contexts, and the same mark of reversal or the same values. -/
inductive SameBody : RuleBody → RuleBody → Prop
  | substitution {s s' : Substitution} (input : s'.input = s.input) (replacement : s'.replacement = s.replacement)
      (before : s'.before = s.before) (after : s'.after = s.after)
      (reversal : s'.reversal.counts = s.reversal.counts) : SameBody (.substitution s) (.substitution s')
  | positioning {p p' : Positioning} (glyphs : p'.glyphs = p.glyphs)
      (values : Forall₂ (Option.Rel SameValue) p.values p'.values) (before : p'.before = p.before)
      (after : p'.after = p.after) : SameBody (.positioning p) (.positioning p')

structure SameRule (r r' : Rule) : Prop where
  body : SameBody r.body r'.body
  flags : flagsNumber? r'.flags = flagsNumber? r.flags

def decodeRule (n : Node) : Except Fault Rule :=
  if n.tag? = some "positioning" then decodePositioning n else decodeSubstitution n

/-- Both sides are there and not empty, or every glyph has a value, which is not vertical; and all names may be
written. -/
def BodyFaithful : RuleBody → Prop
  | .substitution s => (s.input ≠ some [] ∧ s.replacement ≠ some []) ∧
      SlotsWritable (s.input.getD []) ∧ SlotsWritable (s.replacement.getD [])
  | .positioning p => (p.glyphs ≠ [] ∧ p.glyphs.length = p.values.length) ∧ SlotsWritable p.glyphs ∧
      ∀ v ∈ p.values, ∃ u, v = some u ∧ u.vertical = false
  | _ => False

/-- A rule without flags all of which comes back, what it calls apart: that is written but not found again. -/
structure RuleFaithful (b : Book) (fuel : Nat) (r : Rule) : Prop where
  address : ∀ t ∈ addressText r.address, Writable t
  flags : r.flags.counts = false
  before : SlotsWritable r.before
  after : SlotsWritable r.after
  calls : ∀ l ∈ (r.calls.getD []).entries, ∃ n, encodeCall (encodeRoutine b fuel) l = .ok n
  body : BodyFaithful r.body

section Trip
variable {b : Book} {fuel : Nat} {r : Rule}

/-- What is written of a body: its tag and its parts. -/
def bodyParts : RuleBody → String × List Node
  | .substitution s =>
    ("substitution", slotsPart "from" (s.input.getD []) ++ slotsPart "to" (s.replacement.getD []))
  | .positioning p => ("positioning", slotsPart "glyphs" p.glyphs ++
      [.element "positions" [] none (p.values.map fun v => valueNode (v.getD {}))])
  | _ => ("", [])

def ruleNode (b : Book) (fuel : Nat) (r : Rule) : Node :=
  .element (bodyParts r.body).1
    (optional "address" (addressText r.address) ++ optional "reverse" (reverseText r.body) ++
      optional "flags" (flagsText r.flags)) none
    (slotsPart "precontext" r.before ++ slotsPart "postcontext" r.after ++
      callsPart (encodeRoutine b fuel) r.calls ++ (bodyParts r.body).2)

def BodyWritable : RuleBody → Prop
  | .substitution s => SlotsWritable (s.input.getD []) ∧ SlotsWritable (s.replacement.getD [])
  | .positioning p => SlotsWritable p.glyphs ∧ ∀ v ∈ p.values, v.isSome
  | _ => False

def RuleWritable (b : Book) (fuel : Nat) (r : Rule) : Prop :=
  (∀ t ∈ addressText r.address, Writable t) ∧ SlotsWritable r.before ∧ SlotsWritable r.after ∧
    (∀ l ∈ (r.calls.getD []).entries, CallWritable (encodeRoutine b fuel) l) ∧ BodyWritable r.body

lemma encodeRule_eq_ok (h : PlainRule r) :
    encodeRule b (fuel + 1) r = .ok n ↔ RuleWritable b fuel r ∧ n = ruleNode b fuel r := by
  unfold encodeRule RuleWritable ruleNode
  rw [bind_eq_ok_of (headAttributes_eq_ok h.languages h.flags), bind_eq_ok_of encodeSlots_eq_ok,
    bind_eq_ok_of encodeSlots_eq_ok, bind_eq_ok_of encodeCalls_eq_ok]
  rcases h.body with ⟨s, hbody⟩ | ⟨p, hbody, -⟩
  · simp only [hbody, bind_eq_ok_of encodeSlots_eq_ok, pure_eq_ok, BodyWritable, bodyParts, and_assoc, append_assoc]
  · simp only [hbody, bind_eq_ok_of encodeSlots_eq_ok, bind_eq_ok_of (mapM_eq_ok_iff fun _ _ => encodeValue_eq_ok),
      pure_eq_ok, BodyWritable, bodyParts, and_assoc, append_assoc]

def returnedFlags (f : Flags) : Flags := ((flagsText f).map Flags.text).getD .unset

lemma flagsNumber?_returned (h : ∃ k, f = .bits k) :
    flagsNumber? (returnedFlags f) = flagsNumber? f ↔ f.counts = false := by
  obtain ⟨k, rfl⟩ := h
  unfold returnedFlags flagsText
  cases hk : (Flags.bits k).counts with
  | true => simp [flagsNumber?]
  | false =>
    have : k = 0 := by simpa [Flags.counts] using hk
    simp [flagsNumber?, this]

def returnedRule (r : Rule) (body : RuleBody) : Rule :=
  { body, flags := returnedFlags r.flags, address := ((addressText r.address).map Address.text).getD .none }

def returnedBody (calls : Option Calls) : RuleBody → RuleBody
  | .substitution s => .substitution
      { input := returned (s.input.getD [])
        replacement := returned (s.replacement.getD [])
        before := s.before
        after := s.after
        reversal := ((reverseText (.substitution s)).map Reversal.text).getD .unset
        calls := calls.getD [] }
  | .positioning p => .positioning
      { glyphs := p.glyphs
        values := (p.values.map fun v => (v.getD {}).settled).map some
        before := p.before
        after := p.after
        calls }
  | body => body

/-- A body that can be read again. -/
def BodyReadable : RuleBody → Prop
  | .positioning p => p.glyphs ≠ [] ∧ p.glyphs.length = p.values.length
  | _ => True

lemma findAll_ruleNode : ∀ c ∈ (ruleNode b fuel r).children, c.findAll "routine" = [] := by
  have slots tag slots : ∀ c ∈ slotsPart tag slots, c.findAll "routine" = [] :=
    findAll_part "slot" (by simp [slotNode]) (by decide)
  have calls : ∀ c ∈ callsPart (encodeRoutine b fuel) r.calls, c.findAll "routine" = [] :=
    findAll_part "slot" (by simp [callSlotNode]) (by decide)
  refine forall_mem_append.2 ⟨forall_mem_append.2 ⟨forall_mem_append.2 ⟨slots _ _, slots _ _⟩, calls⟩, ?_⟩
  cases r.body with
  | substitution s => exact forall_mem_append.2 ⟨slots _ _, slots _ _⟩
  | positioning p =>
    refine forall_mem_append.2 ⟨slots _ _, forall_mem_singleton.2 ?_⟩
    simp [Node.findAll, Node.children, valueNode]
  | _ => exact forall_mem_nil _

lemma find?_slotsPart (tag other) (slots) : (slotsPart tag slots).find? (·.tag? == some other) =
    if tag = other then (slotsPart tag slots).head? else none := find?_part tag other _

lemma find?_ruleNode {tag} (h : "lookups" ≠ tag) : (ruleNode b fuel r).find? tag =
    ((if "precontext" = tag then (slotsPart "precontext" r.before).head? else none).or
      (if "postcontext" = tag then (slotsPart "postcontext" r.after).head? else none)).or
        ((bodyParts r.body).2.find? (·.tag? == some tag)) := by
  rw [← find?_slotsPart, ← find?_slotsPart, ← List.find?_append, ← List.find?_append, ruleNode, Node.find?, Node.children]
  simp [callsPart, find?_part, h]

lemma decodeRule_eq_ok (b) (fuel) (h : PlainRule r) : ∃ calls, ∀ r', decodeRule (ruleNode b fuel r) = .ok r' ↔
    BodyReadable r.body ∧ r' = returnedRule r (returnedBody calls r.body) := by
  obtain ⟨calls, hcalls⟩ := decodeEmptyCalls_isOk findAll_ruleNode
  refine ⟨calls, fun r' => ?_⟩
  have address : decodeAddress (ruleNode b fuel r) = ((addressText r.address).map Address.text).getD .none := by
    simp [decodeAddress, ruleNode, get?_element, get?_append, get?_optional]
  have flags : decodeFlags (ruleNode b fuel r) = returnedFlags r.flags := by
    simp [decodeFlags, ruleNode, get?_element, get?_append, get?_optional, returnedFlags]
  have languages : decodeLanguages (ruleNode b fuel r) = none := by
    simp [decodeLanguages, ruleNode, get?_element, get?_append, get?_optional]
  rcases h.body with ⟨s, hbody⟩ | ⟨p, hbody, hwhole⟩
  · have kind : decodeRule (ruleNode b fuel r) = decodeSubstitution (ruleNode b fuel r) :=
      if_neg (by simp [ruleNode, hbody, bodyParts])
    have reverse : (ruleNode b fuel r).get? "reverse" = reverseText r.body := by
      simp [ruleNode, get?_element, get?_append, get?_optional]
    rw [kind, decodeSubstitution, hcalls, ok_bind, address, flags, languages, reverse, pure_eq_ok]
    simp [find?_ruleNode, hbody, bodyParts, find?_slotsPart, decodeSlots_slotsPart, returned_getD, returnedRule,
      returnedBody, BodyReadable, Rule.before, Rule.after]
  · have kind : decodeRule (ruleNode b fuel r) = decodePositioning (ruleNode b fuel r) :=
      if_pos (by rw [ruleNode, hbody]; rfl)
    have values : (p.values.map fun v => valueNode (v.getD {})).mapM decodeValue =
        .ok (p.values.map fun v => (v.getD {}).settled) := by
      rw [mapM_map]
      refine mapM_ok fun v hv => decodeValue_valueNode ?_
      cases v with
      | none => decide
      | some u => exact hwhole _ hv u rfl
    have all : (Node.element "positions" [] none (p.values.map fun v => valueNode (v.getD {}))).findAll "valuerecord" =
        p.values.map fun v => valueNode (v.getD {}) := filter_eq_self.2 fun n hn => by
      obtain ⟨v, -, rfl⟩ := mem_map.1 hn
      rfl
    have positions : (ruleNode b fuel r).find? "positions" =
        some (.element "positions" [] none (p.values.map fun v => valueNode (v.getD {}))) := by
      simp [find?_ruleNode, hbody, bodyParts, find?_slotsPart]
    have glyphs : decodeSlots ((ruleNode b fuel r).find? "glyphs") = returned p.glyphs := by
      simp [find?_ruleNode, hbody, bodyParts, find?_slotsPart, decodeSlots_slotsPart]
    have before : decodeSlots ((ruleNode b fuel r).find? "precontext") = returned p.before := by
      simp [find?_ruleNode, hbody, bodyParts, find?_slotsPart, decodeSlots_slotsPart, Rule.before]
    have after : decodeSlots ((ruleNode b fuel r).find? "postcontext") = returned p.after := by
      simp [find?_ruleNode, hbody, bodyParts, find?_slotsPart, decodeSlots_slotsPart, Rule.after]
    rw [kind, decodePositioning, positions]
    simp only [all, values, ok_bind, glyphs, before, after, hcalls, address, flags, languages, returned_getD, hbody]
    by_cases hnone : p.glyphs = []
    · simp [returned, hnone, BodyReadable]
    · by_cases hlength : p.glyphs.length = p.values.length
      · simp [returned, hnone, hlength, BodyReadable, returnedRule, returnedBody, pure_eq_ok]
      · have hother : (p.glyphs.length != p.values.length) = true := by simpa using hlength
        refine iff_of_false (fun heq => ?_) fun hr => hlength hr.1.2
        simp only [returned, if_neg hnone, length_map, hother] at heq
        cases heq

/-- A body of which nothing is lost. -/
def BodyKept : RuleBody → Prop
  | .substitution s => s.input ≠ some [] ∧ s.replacement ≠ some []
  | .positioning p => ∀ v ∈ p.values, ∃ u, v = some u ∧ u.vertical = false
  | _ => False

lemma sameBody_returned (calls) (body) :
    SameBody body (returnedBody calls body) ↔ BodyKept body := by
  cases body with
  | substitution s =>
    constructor
    · intro h
      cases h with
      | substitution input replacement => exact ⟨returned_eq_iff.1 input, returned_eq_iff.1 replacement⟩
    · rintro ⟨input, replacement⟩
      refine .substitution (returned_eq_iff.2 input) (returned_eq_iff.2 replacement) rfl rfl ?_
      show (((if s.reversal.counts then some "true" else none).map Reversal.text).getD .unset).counts = _
      cases s.reversal.counts <;> rfl
  | positioning p =>
    have value v :
        Option.Rel SameValue v (some (v.getD {}).settled) ↔ ∃ u, v = some u ∧ u.vertical = false := by
      cases v <;> simp [sameValue_settled]
    have values : Forall₂ (Option.Rel SameValue) p.values ((p.values.map fun v => (v.getD {}).settled).map some) ↔
        BodyKept (.positioning p) := by
      rw [map_map, List.forall₂_map_right_iff, List.forall₂_same]
      exact forall₂_congr fun v _ => value v
    rw [← values]
    constructor
    · intro h
      cases h with
      | positioning _ values => exact values
    · exact fun h => .positioning rfl h rfl rfl
  | chaining | attachment => exact ⟨fun h => (by cases h), False.elim⟩

lemma bodyFaithful_iff (body) :
    BodyFaithful body ↔ BodyWritable body ∧ BodyReadable body ∧ BodyKept body := by
  cases body with
  | substitution s => simp [BodyFaithful, BodyWritable, BodyReadable, BodyKept, and_comm]
  | positioning p =>
    have given : BodyKept (.positioning p) → ∀ v ∈ p.values, v.isSome := by
      intro h v hv
      obtain ⟨u, rfl, -⟩ := h v hv
      rfl
    exact ⟨fun ⟨hread, hslots, hkept⟩ => ⟨⟨hslots, given hkept⟩, hread, hkept⟩,
      fun ⟨⟨hslots, _⟩, hread, hkept⟩ => ⟨hread, hslots, hkept⟩⟩
  | chaining | attachment => simp [BodyFaithful, BodyKept]

/-- **A rule comes back the same exactly if nothing of it is lost**: it has no flags, no side without slots and no
vertical value, and its names and what it calls may be written. -/
lemma rule_trip_iff (h : PlainRule r) :
    (∃ n r', encodeRule b (fuel + 1) r = .ok n ∧ decodeRule n = .ok r' ∧ SameRule r r') ↔ RuleFaithful b fuel r := by
  obtain ⟨calls, hread⟩ := decodeRule_eq_ok b fuel h
  have hsame : SameRule r (returnedRule r (returnedBody calls r.body)) ↔ r.flags.counts = false ∧ BodyKept r.body := by
    rw [← flagsNumber?_returned h.flags, ← sameBody_returned calls]
    exact ⟨fun hs => ⟨hs.flags, hs.body⟩, fun hs => ⟨hs.2, hs.1⟩⟩
  constructor
  · rintro ⟨n, r', hn, hr', hs⟩
    obtain ⟨⟨haddress, hbefore, hafter, hcalls, hbody⟩, rfl⟩ := (encodeRule_eq_ok h).1 hn
    obtain ⟨hreadable, rfl⟩ := (hread r').1 hr'
    obtain ⟨hflags, hkept⟩ := hsame.1 hs
    exact ⟨haddress, hflags, hbefore, hafter, hcalls, (bodyFaithful_iff _).2 ⟨hbody, hreadable, hkept⟩⟩
  · rintro ⟨haddress, hflags, hbefore, hafter, hcalls, hbody⟩
    obtain ⟨hbody, hreadable, hkept⟩ := (bodyFaithful_iff _).1 hbody
    exact ⟨_, _, (encodeRule_eq_ok h).2 ⟨⟨haddress, hbefore, hafter, hcalls, hbody⟩, rfl⟩,
      (hread _).2 ⟨hreadable, rfl⟩, hsame.2 ⟨hflags, hkept⟩⟩

end Trip

end GlyphRules.Markup
