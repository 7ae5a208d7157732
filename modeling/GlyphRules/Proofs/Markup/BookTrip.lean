import GlyphRules.Proofs.Markup.RoutineTrip

/-! Books as markup, there and back.

The parts of a book are written one after the other and read in the same order; last, the references of
features are resolved by the names of routines. A book of substitutions and positionings comes back the same exactly
if each of its parts does (`markup_round_trip_iff`). -/
namespace GlyphRules.Markup

open Step Book List Number Dict

variable {n : Node} {α β γ : Type} {i i' : RoutineId} {a q : String × Point} {enc : String × α → Except Fault Node}

/-! ### The other parts -/

def classOf (n : Node) : String × List String := (nameOf n, n.children.map fun g => g.text?.getD nameless)

def featureOf (n : Node) : String × List Lookup := (nameOf n, n.children.map fun r => .ref (decodeReference r))

def anchorsOf (n : Node) : Except Fault (String × List (String × Point)) := do
  return (nameOf n, Dict.merge [] (← n.children.mapM decodeAnchor))

def categoryOf (n : Node) : String × Option String := (nameOf n, n.get? "class")

lemma on_forM_entries {f : Node → Act Unit} {g : Node → Except Fault (String × α)}
    {view : Book → List (String × α)} {put : Book → List (String × α) → Book}
    (hok : ∀ n b e, g n = .ok e → (f n).on b = (.ok ⟨⟩, put b (Dict.set (view b) e.1 e.2)))
    (hfail : ∀ n b e, g n = .error e → ∃ c, (f n).on b = (.error e, c)) (hview : ∀ b d, view (put b d) = d)
    (hput : ∀ b d d', put (put b d) d' = put b d') (hsame : ∀ b, put b (view b) = b) {ns : List Node} {b b'} :
    (ns.forM f).on b = (.ok ⟨⟩, b') ↔ ∃ es, ns.mapM g = .ok es ∧ b' = put b (Dict.merge (view b) es) := by
  have all es b :
      es.foldl (fun b e => put b (Dict.set (view b) e.1 e.2)) b = put b (Dict.merge (view b) es) := by
    induction es generalizing b with
    | nil => exact (hsame b).symm
    | cons e es ih =>
      rw [foldl_cons, ih, hview, hput]
      rfl
  -- Elements are read before they are put in, so an element that cannot be read is where the loop ends.
  rw [on_forM_read (fun n _ => hok n) fun n _ => hfail n]
  simp only [all]

lemma on_forM_entries_pure {f : Node → Act Unit} {entry : Node → String × α}
    {view : Book → List (String × α)} {put : Book → List (String × α) → Book}
    (hf : ∀ n b, (f n).on b = (.ok ⟨⟩, put b (set (view b) (entry n).1 (entry n).2)))
    (hview : ∀ b d, view (put b d) = d) (hput : ∀ b d d', put (put b d) d' = put b d')
    (hsame : ∀ b, put b (view b) = b) (ns : List Node) (b) :
    (ns.forM f).on b = (.ok ⟨⟩, put b (Dict.merge (view b) (ns.map entry))) := by
  refine (on_forM_entries ?_ ?_ hview hput hsame).2 ⟨_, mapM_pure .., rfl⟩
  · rintro n b _ ⟨⟩
    exact hf n b
  · rintro n b _ ⟨⟩

variable {b b' c : Book}

lemma readAnchors_on {ns : List Node} : (ns.forM readAnchors).on b = (.ok ⟨⟩, b') ↔
    ∃ es, ns.mapM anchorsOf = .ok es ∧ b' = { b with anchors := Dict.merge b.anchors es } := by
  refine @on_forM_entries _ readAnchors anchorsOf Book.anchors (fun b d => { b with anchors := d })
    ?_ ?_ ?_ ?_ ?_ ns b b'
  · intro n b e he
    obtain ⟨points, hpoints, he⟩ := bind_eq_ok.1 he
    cases he
    rw [readAnchors, on_bind_ok (on_ofExcept _ b |>.trans (by rw [hpoints]))]
    rfl
  · intro n b e he
    refine ⟨b, on_bind_error ((on_ofExcept _ b).trans ?_) _⟩
    unfold anchorsOf at he
    cases hpoints : n.children.mapM decodeAnchor with
    | error f =>
      rw [hpoints] at he
      cases he
      rfl
    | ok points =>
      rw [hpoints] at he
      cases he
  all_goals intros; rfl

/-! ### Reading a book -/

structure Parts where
  classes : List (String × List String)
  routines : List (Routine × List Rule)
  features : List (String × List Lookup)
  anchors : List (String × List (String × Point))
  categories : List (String × Option String)

def Parts.book (p : Parts) : Book :=
  { routines := (p.routines.foldl install {}).routines
    rules := (p.routines.foldl install {}).rules
    order := List.range' 0 p.routines.length
    namedClasses := p.classes
    features := p.features
    anchors := p.anchors
    glyphClasses := p.categories }

/-- What a call means, and what the calls of a feature mean. -/
def resolvedCall (b : Book) : Lookup → Except Fault Lookup
  | .ref r => do return .ref (← b.resolve r)
  | l => .ok l

def resolvedFeature (b : Book) (f : String × List Lookup) : Except Fault (String × List Lookup) := do
  return (f.1, ← f.2.mapM (resolvedCall b))

lemma resolveFeature_on (f) (b) :
    (resolveFeature f).on b = (resolvedFeature b f, b) := by
  have call l : (resolveCall l).on b = (resolvedCall b l, b) := by
    cases l with
    | bare i => rfl
    | ref r =>
      show (do return Lookup.ref (← ofExcept (b.resolve r)) : Act _).on b =
        ((do return Lookup.ref (← b.resolve r)), b)
      cases b.resolve r <;> rfl
  have calls := on_mapM_except (l := f.2) fun l _ => call l
  unfold resolveFeature resolvedFeature
  cases hls : f.2.mapM (resolvedCall b) with
  | error e => exact on_bind_error (calls.trans (by rw [hls])) _
  | ok ls => exact on_bind_ok (calls.trans (by rw [hls])) _

structure ReadAs (cs rs fs as gs : List Node) (p : Parts) : Prop where
  classes : p.classes = Dict.merge [] (cs.map classOf)
  routines : rs.mapM decodeWhole = .ok p.routines
  features : p.features = Dict.merge [] (fs.map featureOf)
  anchors : ∃ es, as.mapM anchorsOf = .ok es ∧ p.anchors = Dict.merge [] es
  categories : p.categories = Dict.merge [] (gs.map categoryOf)

/-- Nothing but routines and rules is changed or looked at when routines are added. -/
lemma foldl_install_eq (xs : List (Routine × List Rule)) (hroutines : c.routines = b.routines)
    (hrules : c.rules = b.rules) : xs.foldl install c =
      { c with routines := (xs.foldl install b).routines, rules := (xs.foldl install b).rules } := by
  induction xs generalizing b c with
  | nil =>
    rw [foldl_nil, foldl_nil, ← hroutines, ← hrules]
  | cons x xs ih =>
    refine ih ?_ ?_
    · simp only [install, hroutines, hrules]
    · simp only [install, hrules]

/-- A book in markup: its parts, in the order in which they are written. -/
def bookNode (cs rs fs as gs : List Node) : Node := .element "fontfeatures" [] none
  [.element "namedclasses" [] none cs, .element "routines" [] none rs, .element "features" [] none fs,
    .element "anchors" [] none as, .element "glyphclasses" [] none gs]

lemma readBook_on {cs rs fs as gs} (h : ∀ n ∈ rs, ∀ c ∈ n.children, IsRule c) {b'} :
    (readBook (bookNode cs rs fs as gs)).on {} = (.ok ⟨⟩, b') ↔
      ∃ p features, ReadAs cs rs fs as gs p ∧ p.features.mapM (resolvedFeature p.book) = .ok features ∧
        b' = { p.book with features } := by
  have parts {c} : ((bookNode cs rs fs as gs).children.forM readPart).on {} = (.ok ⟨⟩, c) ↔
      ∃ p, ReadAs cs rs fs as gs p ∧ c = p.book := by
    have first := @on_forM_entries_pure _ readClass classOf Book.namedClasses (fun b d => { b with namedClasses := d })
      (fun _ _ => rfl) (fun _ _ => rfl) (fun _ _ _ => rfl) (fun _ => rfl) cs {}
    have third := @on_forM_entries_pure _ readFeature featureOf Book.features (fun b d => { b with features := d })
      (fun _ _ => rfl) (fun _ _ => rfl) (fun _ _ _ => rfl) (fun _ => rfl) fs
    have last := @on_forM_entries_pure _ readCategory categoryOf Book.glyphClasses
      (fun b d => { b with glyphClasses := d }) (fun _ _ => rfl) (fun _ _ => rfl) (fun _ _ _ => rfl) (fun _ => rfl) gs
    have added rows := foldl_install_eq rows (b := {})
      (c := { namedClasses := Dict.merge [] (cs.map classOf) }) rfl rfl
    simp only [bookNode, Node.children, List.forM, on_bind_iff]
    constructor
    · rintro ⟨_, c₁, h₁, _, c₂, h₂, _, c₃, h₃, _, c₄, h₄, _, c₅, h₅, hrun⟩
      cases hrun
      cases first.symm.trans h₁
      obtain ⟨order, d, hrows, h₂⟩ := on_bind_eq_ok h₂
      cases h₂
      obtain ⟨rows, hwhole, rfl, rfl⟩ := (readRoutines_on h).1 hrows
      cases (third _).symm.trans h₃
      obtain ⟨es, hes, rfl⟩ := readAnchors_on.1 h₄
      cases (last _).symm.trans h₅
      refine ⟨⟨_, rows, _, _, _⟩, ⟨rfl, hwhole, rfl, ⟨es, hes, rfl⟩, rfl⟩, ?_⟩
      simp only [added]
      rfl
    · rintro ⟨p, hp, rfl⟩
      obtain ⟨es, hes, hanchors⟩ := hp.anchors
      refine ⟨_, _, first, _, _, on_bind_ok ((readRoutines_on h).2 ⟨p.routines, hp.routines, rfl, rfl⟩) _, _, _, third _,
        _, _, readAnchors_on.2 ⟨es, hes, rfl⟩, _, _, last _, ?_⟩
      simp only [added, Parts.book, hp.classes, hp.features, hanchors, hp.categories]
      rfl
  have resolved (c : Book) := on_mapM_except (l := c.features) fun f _ => resolveFeature_on f c
  constructor
  · intro hrun
    obtain ⟨_, c, hparts, hrun⟩ := on_bind_eq_ok hrun
    obtain ⟨p, hp, rfl⟩ := parts.1 hparts
    rw [on_get_bind] at hrun
    obtain ⟨features, t, hfeatures, hdone⟩ := on_bind_eq_ok hrun
    cases hdone
    obtain ⟨hresolved, rfl⟩ := Prod.mk.inj ((resolved p.book).symm.trans hfeatures)
    exact ⟨p, features, hp, hresolved, rfl⟩
  · rintro ⟨p, features, hp, hfeatures, rfl⟩
    refine (on_bind_ok (parts.2 ⟨p, hp, rfl⟩) _).trans ?_
    exact on_bind_ok ((resolved p.book).trans (Prod.ext hfeatures rfl)) _

/-! ### Writing a book -/

lemma bookMarkup_eq_ok : bookMarkup b = .ok n ↔
    ∃ cs, b.namedClasses.mapM encodeClass = .ok cs ∧ ∃ rs, b.order.mapM (routineMarkup b) = .ok rs ∧
      ∃ fs, b.features.mapM (encodeFeature b) = .ok fs ∧ ∃ as, b.anchors.mapM encodeAnchors = .ok as ∧
      ∃ gs, b.glyphClasses.mapM encodeCategory = .ok gs ∧ n = bookNode cs rs fs as gs := by
  unfold bookMarkup
  simp only [bind_eq_ok, pure_eq_ok, bookNode]

/-- Entries of a dictionary come back as a whole exactly if each does. -/
lemma dict_trip_iff {dec : Node → Except Fault (String × α)}
    (hkey : ∀ {x n y}, enc x = .ok n → dec n = .ok y → y.1 = x.1) {l}
    (hl : (l.map (·.1)).Nodup) :
    (∃ ns ys, l.mapM enc = .ok ns ∧ ns.mapM dec = .ok ys ∧ Dict.merge [] ys = l) ↔
      ∀ x ∈ l, ∃ n, enc x = .ok n ∧ dec n = .ok x := by
  -- No two entries have one key, so each is put behind those before it.
  have keys {l : List (String × α)} {ns} {ys} (hns : l.mapM enc = .ok ns)
      (hys : ns.mapM dec = .ok ys) : ys.map (·.1) = l.map (·.1) := by
    rw [mapM_iff_forall₂] at hns hys
    exact map_of_forall₂ (forall₂_trans (T := fun x y => y.1 = x.1) hkey hns hys)
  have each := except_mapM_trip (f := enc) (g := dec) (R := (· = ·)) (l := l)
  rw [List.forall₂_eq_eq_eq] at each
  constructor
  · rintro ⟨ns, ys, hns, hys, hmerge⟩ x hx
    rw [merge_of_nodup (by rwa [keys hns hys])] at hmerge
    obtain ⟨n, y, hn, hy, rfl⟩ := each.1 ⟨ns, ys, hns, hys, hmerge.symm⟩ x hx
    exact ⟨n, hn, hy⟩
  · intro h
    obtain ⟨ns, ys, hns, hys, rfl⟩ := each.2 fun x hx => (h x hx).imp fun n hn => ⟨x, hn.1, hn.2, rfl⟩
    exact ⟨ns, l, hns, hys, merge_of_nodup hl⟩

/-- Entries that come back whenever they are written do so as a whole exactly if each may be written. -/
lemma dict_trip_pure_iff
    {Allowed : String × α → Prop} {node : String × α → Node} (henc : ∀ {x n}, enc x = .ok n ↔ Allowed x ∧ n = node x)
    (hdec : ∀ {x}, Allowed x → dec (node x) = x) {l} (hl : (l.map (·.1)).Nodup) :
    (∃ ns, l.mapM enc = .ok ns ∧ Dict.merge [] (ns.map dec) = l) ↔ ∀ x ∈ l, Allowed x := by
  simp only [mapM_eq_ok_iff fun _ _ => henc]
  constructor
  · exact fun ⟨_, h, _⟩ => h.1
  · intro h
    have back : (l.map node).map dec = l := by
      rw [map_map]
      exact (map_congr_left fun x hx => hdec (h x hx)).trans (map_id l)
    exact ⟨_, ⟨h, rfl⟩, by rw [back, merge_of_nodup hl]⟩

lemma encodeNamed_eq_ok {enc} {e : String × List α} :
    encodeNamed tag enc e = .ok n ↔
      Writable e.1 ∧ ∃ ns, e.2.mapM enc = .ok ns ∧ n = .element tag [("name", e.1)] none ns := by
  unfold encodeNamed
  simp only [bind_eq_ok, allowed_eq_ok, pure_eq_ok, and_assoc, exists_and_left, exists_eq_left]

lemma encodeClass_eq_ok {c} : encodeClass c = .ok n ↔
    (Writable c.1 ∧ ∀ g ∈ c.2, GlyphWritable g) ∧ n = .element "class" [("name", c.1)] none (c.2.map glyphNode) := by
  unfold encodeClass encodeNamed
  rw [bind_eq_ok_of allowed_eq_ok, bind_eq_ok_of (mapM_eq_ok_iff fun _ _ => encodeGlyph_eq_ok), pure_eq_ok, and_assoc]

lemma required_eq_ok {value} {a} :
    required key value = .ok a ↔ (∃ t, value = some t ∧ Writable t) ∧ a = (key, value.getD "") := by
  cases value with
  | none => simp [required]
  | some v =>
    rw [required, bind_eq_ok_of allowed_eq_ok, pure_eq_ok]
    simp

lemma encodeCategory_eq_ok : encodeCategory g = .ok n ↔
    (Writable g.1 ∧ ∃ t, g.2 = some t ∧ Writable t) ∧
      n = .element "glyph" [("name", g.1), ("class", g.2.getD "")] none [] := by
  rw [encodeCategory, bind_eq_ok_of allowed_eq_ok, bind_eq_ok_of required_eq_ok, pure_eq_ok, and_assoc]

def WholePoint (p : Point) : Prop := Whole p.1 ∧ Whole p.2

lemma encodeAnchor_eq_ok : encodeAnchor a = .ok n ↔ Writable a.1 ∧
    n = .element "anchor" [("name", a.1), ("x", a.2.1.text), ("y", a.2.2.text)] none [] := by
  unfold encodeAnchor
  simp only [bind_eq_ok, allowed_eq_ok, pure_eq_ok, and_assoc, exists_and_left, exists_eq_left]

lemma decodeAnchor_encode (hn : encodeAnchor a = .ok n) :
    decodeAnchor n = .ok q ↔ ∃ x, read a.2.1.text = .ok x ∧ ∃ y, read a.2.2.text = .ok y ∧
      q = (a.1, (.int x, .int y)) := by
  obtain ⟨-, rfl⟩ := encodeAnchor_eq_ok.1 hn
  unfold decodeAnchor
  simp only [bind_eq_ok, pure_eq_ok]
  rfl

lemma encodeAnchor_trip_iff :
    (∃ n, encodeAnchor a = .ok n ∧ decodeAnchor n = .ok a) ↔ Writable a.1 ∧ WholePoint a.2 := by
  constructor
  · rintro ⟨n, hn, ha⟩
    obtain ⟨x, -, y, -, heq⟩ := (decodeAnchor_encode hn).1 ha
    rw [heq]
    exact ⟨(encodeAnchor_eq_ok.1 hn).1, ⟨x, rfl⟩, ⟨y, rfl⟩⟩
  · obtain ⟨name, px, py⟩ := a
    rintro ⟨hname, ⟨x, rfl⟩, ⟨y, rfl⟩⟩
    have hn := encodeAnchor_eq_ok.2 ⟨hname, rfl⟩
    exact ⟨_, hn, (decodeAnchor_encode hn).2 ⟨x, read_toString x, y, read_toString y, rfl⟩⟩

lemma anchorsOf_eq_ok {ns} {q} :
    anchorsOf (.element "glyph" [("name", name)] none ns) = .ok q ↔
      ∃ points, ns.mapM decodeAnchor = .ok points ∧ q = (name, Dict.merge [] points) := by
  unfold anchorsOf
  simp only [bind_eq_ok, pure_eq_ok]
  rfl

/-- The anchors of a glyph come back exactly if each does. -/
lemma encodeAnchors_trip_iff (hg : (g.2.map (·.1)).Nodup) :
    (∃ n, encodeAnchors g = .ok n ∧ anchorsOf n = .ok g) ↔ Writable g.1 ∧ ∀ a ∈ g.2, Writable a.1 ∧ WholePoint a.2 := by
  have hkey {x y} {n} (hn : encodeAnchor x = .ok n) (hy : decodeAnchor n = .ok y) :
      y.1 = x.1 := by
    obtain ⟨_, -, _, -, rfl⟩ := (decodeAnchor_encode hn).1 hy
    rfl
  have points := dict_trip_iff hkey hg
  simp only [encodeAnchor_trip_iff] at points
  rw [← points]
  constructor
  · rintro ⟨n, hn, hg⟩
    obtain ⟨hname, ns, hns, rfl⟩ := encodeNamed_eq_ok.1 hn
    obtain ⟨ps, hps, heq⟩ := anchorsOf_eq_ok.1 hg
    exact ⟨hname, ns, ps, hns, hps, (congrArg Prod.snd heq).symm⟩
  · rintro ⟨hname, ns, ps, hns, hps, heq⟩
    exact ⟨_, encodeNamed_eq_ok.2 ⟨hname, ns, hns, rfl⟩, anchorsOf_eq_ok.2 ⟨ps, hps, Prod.ext rfl heq.symm⟩⟩

/-! ### References -/

def meaning? (b : Book) (l : Lookup) : Option RoutineId := (resolvedCall b l).toOption.bind Lookup.routine?

/-- Calls of the routines at one index. -/
def SameCall (b b' : Book) (l l' : Lookup) : Prop :=
  ∃ (k : Nat) (i i' : RoutineId), meaning? b l = some i ∧ meaning? b' l' = some i' ∧
    b.order[k]? = some i ∧ b'.order[k]? = some i'

def SameRoutines (b b' : Book) : Prop :=
  Forall₂ (fun i i' => SameAs b i (b'.routine i', b'.rulesOf i')) b.order b'.order

/-- A reference by the name of a routine in force; where it knows a routine, it is that one. -/
def RefFaithful (b : Book) (r : Reference) : Prop :=
  ∃ i ∈ b.order, r.name = some (b.routine i).name ∧ (r.routine = none ∨ r.routine = some i)

/-- The names of the routines in force. -/
def names (b : Book) : List (Option String) := b.order.map fun i => (b.routine i).name

lemma SameRoutines.names (h : SameRoutines b b') : names b' = names b :=
  map_of_forall₂ (Forall₂.imp (fun _ _ hs => hs.name) h)

lemma SameRoutines.name_at (h : SameRoutines b b') {k : Nat}
    (hi : b.order[k]? = some i) (hi' : b'.order[k]? = some i') : (b'.routine i').name = (b.routine i).name := by
  obtain ⟨hk, rfl⟩ := List.getElem?_eq_some_iff.1 hi
  obtain ⟨hk', rfl⟩ := List.getElem?_eq_some_iff.1 hi'
  exact ((List.forall₂_iff_get.1 h).2 k hk hk').name

lemma name_of_routineNamed? (h : b.routineNamed? name = some i) : (b.routine i).name = name :=
  beq_iff_eq.1 (List.find?_some (p := fun i => (b.routine i).name == name) h)

lemma routineNamed?_name (h : (names b).Nodup) (hi : i ∈ b.order) : b.routineNamed? (b.routine i).name = some i := by
  cases hfound : b.routineNamed? (b.routine i).name with
  | none => exact absurd (beq_self_eq_true _) (List.find?_eq_none.1 hfound i hi)
  | some j =>
    rw [inj_on_of_nodup_map h (mem_of_find?_eq_some hfound) hi (name_of_routineNamed? hfound)]

section References
variable {r : Reference} {name : String} (hgiven : name ≠ "")
include hgiven

lemma encodeReference_eq_ok (hname : r.name = some (some name)) : encodeReference r = .ok n ↔
    Writable name ∧ n = .element "routinereference" [("name", name)] none [] := by
  simp [encodeReference, hname, -bind_pure_comp, bind_eq_ok, attribute?_eq_ok, pure_eq_ok, optional]

lemma decodeReference_name :
    decodeReference (.element "routinereference" [("name", name)] none []) = { name := some (some name) } := by
  simp [decodeReference, get?_element, get?]

lemma resolve_eq_ok (hname : r.name = some (some name)) {r'} : b.resolve r = .ok r' ↔
    ∃ i, (r.routine = some i ∨ r.routine = none ∧ b.routineNamed? (some name) = some i) ∧
      r' = { name := some (some name), routine := some i } := by
  obtain ⟨_, routine⟩ := r
  cases hname
  unfold Book.resolve
  cases routine with
  | some j => simp [hgiven, eq_comm]
  | none => cases hfound : b.routineNamed? (some name) <;> simp [hgiven, hfound, eq_comm]

lemma meaning?_ref (hname : r.name = some (some name)) : meaning? b (.ref r) = some i ↔
    r.routine = some i ∨ r.routine = none ∧ b.routineNamed? (some name) = some i := by
  have hcall : meaning? b (.ref r) = (do return .ref (← b.resolve r) : Except Fault Lookup).toOption.bind
    Lookup.routine? := rfl
  rw [hcall]
  constructor
  · intro h
    cases hr : b.resolve r with
    | error e =>
      rw [hr] at h
      cases h
    | ok r' =>
      obtain ⟨j, hj, rfl⟩ := (resolve_eq_ok hgiven hname).1 hr
      rw [hr] at h
      cases h
      exact hj
  · intro h
    rw [(resolve_eq_ok hgiven hname).2 ⟨i, h, rfl⟩]
    rfl

end References

/-- A reference comes back with its meaning exactly if it goes by the name of its routine. -/
lemma reference_trip_iff (hnames : (names b).Nodup) (hplain : ∀ i ∈ b.order, PlainRoutine b i)
    (hwritable : ∀ i ∈ b.order, ∀ n ∈ (b.routine i).name, Writable n) (hsame : SameRoutines b c) {r} :
    (∃ n l', encodeCall (routineMarkup b) (.ref r) = .ok n ∧ resolvedCall c (.ref (decodeReference n)) = .ok l' ∧
      SameCall b c (.ref r) l') ↔ RefFaithful b r := by
  constructor
  · rintro ⟨n, l', hn, hl', k, i, i', hi, hi', hk, hk'⟩
    obtain ⟨name, hname, hgiven⟩ : ∃ name, r.name = some (some name) ∧ name ≠ "" := by
      change encodeReference r = .ok n at hn
      unfold encodeReference at hn
      split at hn
      · cases hn
      · cases hn
        cases hl'
      · cases hn
        cases hl'
      · next name hgiven hname => exact ⟨name, hname, fun heq => hgiven (by rw [heq])⟩
    obtain ⟨-, rfl⟩ := (encodeReference_eq_ok hgiven hname).1 hn
    rw [decodeReference_name hgiven] at hl'
    obtain ⟨r', hr', hl'⟩ := bind_eq_ok.1 hl'
    cases hl'
    obtain ⟨j, hj, rfl⟩ := (resolve_eq_ok hgiven rfl).1 hr'
    have hfound : c.routineNamed? (some name) = some j := (hj.resolve_left fun h => (by cases h)).2
    have heq : some j = some i' := ((meaning?_ref hgiven rfl).1 hi').resolve_right fun h => (by cases h.1)
    cases heq
    refine ⟨i, mem_of_getElem? hk, ?_, ?_⟩
    · rw [hname, ← hsame.name_at hk hk', name_of_routineNamed? hfound]
    · exact ((meaning?_ref hgiven hname).1 hi).symm.imp And.left id
  · rintro ⟨i, hi, hname, hroutine⟩
    obtain ⟨name, hi_name, hgiven⟩ := (hplain i hi).name
    have hw := hwritable i hi name hi_name
    rw [hi_name] at hname
    obtain ⟨k, hk⟩ := mem_iff_getElem?.1 hi
    obtain ⟨i', hk'⟩ : ∃ i', c.order[k]? = some i' := by
      refine ⟨_, List.getElem?_eq_getElem ?_⟩
      rw [← Forall₂.length_eq hsame]
      exact (List.getElem?_eq_some_iff.1 hk).1
    have hfound : b.routineNamed? (some name) = some i := hi_name ▸ routineNamed?_name hnames hi
    have hfound' : c.routineNamed? (some name) = some i' := by
      have hnames' : (names c).Nodup := hsame.names ▸ hnames
      rw [← hi_name, ← hsame.name_at hk hk']
      exact routineNamed?_name hnames' (mem_of_getElem? hk')
    refine ⟨_, .ref { name := some (some name), routine := some i' }, (encodeReference_eq_ok hgiven hname).2 ⟨hw, rfl⟩,
      ?_, k, i, i', ?_, ?_, hk, hk'⟩
    · rw [decodeReference_name hgiven]
      refine bind_eq_ok.2 ⟨_, (resolve_eq_ok hgiven rfl).2 ⟨i', .inr ⟨rfl, hfound'⟩, rfl⟩, rfl⟩
    · exact (meaning?_ref hgiven hname).2 (hroutine.symm.imp id fun h => ⟨h, hfound⟩)
    · exact (meaning?_ref hgiven rfl).2 (.inl rfl)

/-! ### Features -/

/-- The same tag, and calls of the same routines. -/
def SameFeature (b b' : Book) (f f' : String × List Lookup) : Prop :=
  f'.1 = f.1 ∧ Forall₂ (SameCall b b') f.2 f'.2

lemma resolvedFeature_eq_ok {ns} {f'} :
    resolvedFeature c (featureOf (.element "feature" [("name", tag)] none ns)) = .ok f' ↔
      ∃ ls, ns.mapM (fun n => resolvedCall c (.ref (decodeReference n))) = .ok ls ∧ f' = (tag, ls) := by
  have hcalls : (featureOf (.element "feature" [("name", tag)] none ns)).2.mapM (resolvedCall c) =
      ns.mapM fun n => resolvedCall c (.ref (decodeReference n)) := mapM_map
  rw [resolvedFeature, hcalls]
  simp only [bind_eq_ok, pure_eq_ok]
  rfl

/-- A feature comes back with its meaning exactly if each of its references does. -/
lemma feature_trip_iff (hnames : (names b).Nodup) (hplain : ∀ i ∈ b.order, PlainRoutine b i)
    (hwritable : ∀ i ∈ b.order, ∀ n ∈ (b.routine i).name, Writable n) (hsame : SameRoutines b c)
    {f} (hf : ∀ l ∈ f.2, ∃ r, l = .ref r) :
    (∃ n f', encodeFeature b f = .ok n ∧ resolvedFeature c (featureOf n) = .ok f' ∧ SameFeature b c f f') ↔
      Writable f.1 ∧ ∀ r, .ref r ∈ f.2 → RefFaithful b r := by
  have references : (∀ r, .ref r ∈ f.2 → RefFaithful b r) ↔ ∀ l ∈ f.2, ∃ n l',
      encodeCall (routineMarkup b) l = .ok n ∧ resolvedCall c (.ref (decodeReference n)) = .ok l' ∧
        SameCall b c l l' := by
    constructor
    · intro h l hl
      obtain ⟨r, rfl⟩ := hf l hl
      exact (reference_trip_iff hnames hplain hwritable hsame).2 (h r hl)
    · exact fun h r hr => (reference_trip_iff hnames hplain hwritable hsame).1 (h (.ref r) hr)
  rw [references, ← except_mapM_trip]
  constructor
  · rintro ⟨n, f', hn, hf', -, hcalls⟩
    obtain ⟨htag, ns, hns, rfl⟩ := encodeNamed_eq_ok.1 hn
    obtain ⟨ls, hls, rfl⟩ := resolvedFeature_eq_ok.1 hf'
    exact ⟨htag, ns, ls, hns, hls, hcalls⟩
  · rintro ⟨htag, ns, ls, hns, hls, hcalls⟩
    exact ⟨_, _, encodeNamed_eq_ok.2 ⟨htag, ns, hns, rfl⟩, resolvedFeature_eq_ok.2 ⟨ls, hls, rfl⟩, rfl, hcalls⟩

/-! ### Books -/

/-- A book of plain routines whose names differ and whose features hold references. -/
structure PlainBook (b : Book) : Prop where
  routines : ∀ i ∈ b.order, PlainRoutine b i
  names : (names b).Nodup
  references : ∀ f ∈ b.features, ∀ l ∈ f.2, ∃ r, l = .ref r
  classKeys : (b.namedClasses.map (·.1)).Nodup
  featureKeys : (b.features.map (·.1)).Nodup
  anchorKeys : (b.anchors.map (·.1)).Nodup
  pointKeys : ∀ g ∈ b.anchors, (g.2.map (·.1)).Nodup
  categoryKeys : (b.glyphClasses.map (·.1)).Nodup

structure SameBook (b b' : Book) : Prop where
  classes : b'.namedClasses = b.namedClasses
  routines : SameRoutines b b'
  features : Forall₂ (SameFeature b b') b.features b'.features
  anchors : b'.anchors = b.anchors
  categories : b'.glyphClasses = b.glyphClasses

/-- A book all of which comes back. -/
structure BookFaithful (b : Book) : Prop where
  classes : ∀ c ∈ b.namedClasses, Writable c.1 ∧ ∀ g ∈ c.2, GlyphWritable g
  routines : ∀ i ∈ b.order, RoutineFaithful b i
  features : ∀ f ∈ b.features, Writable f.1 ∧ ∀ r, .ref r ∈ f.2 → RefFaithful b r
  anchors : ∀ g ∈ b.anchors, Writable g.1 ∧ ∀ a ∈ g.2, Writable a.1 ∧ WholePoint a.2
  categories : ∀ g ∈ b.glyphClasses, Writable g.1 ∧ ∃ t, g.2 = some t ∧ Writable t

lemma classes_trip_iff (h : (b.namedClasses.map (·.1)).Nodup) :
    (∃ cs, b.namedClasses.mapM encodeClass = .ok cs ∧ Dict.merge [] (cs.map classOf) = b.namedClasses) ↔
      ∀ c ∈ b.namedClasses, Writable c.1 ∧ ∀ g ∈ c.2, GlyphWritable g :=
  dict_trip_pure_iff encodeClass_eq_ok (fun _ => Prod.ext rfl (map_text_glyphNode _)) h

lemma categories_trip_iff (h : (b.glyphClasses.map (·.1)).Nodup) :
    (∃ gs, b.glyphClasses.mapM encodeCategory = .ok gs ∧ Dict.merge [] (gs.map categoryOf) = b.glyphClasses) ↔
      ∀ g ∈ b.glyphClasses, Writable g.1 ∧ ∃ t, g.2 = some t ∧ Writable t := by
  refine dict_trip_pure_iff encodeCategory_eq_ok ?_ h
  rintro ⟨name, category⟩ ⟨-, t, rfl, -⟩
  rfl

lemma anchors_trip_iff (h : (b.anchors.map (·.1)).Nodup) (hpoints : ∀ g ∈ b.anchors, (g.2.map (·.1)).Nodup) :
    (∃ as es, b.anchors.mapM encodeAnchors = .ok as ∧ as.mapM anchorsOf = .ok es ∧ Dict.merge [] es = b.anchors) ↔
      ∀ g ∈ b.anchors, Writable g.1 ∧ ∀ a ∈ g.2, Writable a.1 ∧ WholePoint a.2 := by
  rw [dict_trip_iff ?_ h]
  · exact forall₂_congr fun g hg => encodeAnchors_trip_iff (hpoints g hg)
  · intro g n q hn hq
    obtain ⟨-, ns, -, rfl⟩ := encodeNamed_eq_ok.1 hn
    obtain ⟨_, -, rfl⟩ := anchorsOf_eq_ok.1 hq
    rfl

lemma routines_trip_iff (h : ∀ i ∈ b.order, PlainRoutine b i) :
    (∃ rs xs, b.order.mapM (routineMarkup b) = .ok rs ∧ rs.mapM decodeWhole = .ok xs ∧
      Forall₂ (SameAs b) b.order xs) ↔ ∀ i ∈ b.order, RoutineFaithful b i := by
  rw [except_mapM_trip]
  exact forall₂_congr fun i hi => routine_trip_iff (h i hi)

lemma merge_featureOf (h : (b.features.map (·.1)).Nodup) {fs}
    (hfs : b.features.mapM (encodeFeature b) = .ok fs) : Dict.merge [] (fs.map featureOf) = fs.map featureOf := by
  have tags : fs.map (fun n => (featureOf n).1) = b.features.map (·.1) := by
    refine map_of_forall₂ ((mapM_iff_forall₂.1 hfs).imp fun f n hn => ?_)
    obtain ⟨-, ns, -, rfl⟩ := encodeNamed_eq_ok.1 hn
    rfl
  refine merge_of_nodup ?_
  rw [map_map]
  exact tags ▸ h

lemma forall₂_iff_of_forall₂ {S} {js : List β} {xs : List γ}
    (h : Forall₂ (fun j x => ∀ i, S i j ↔ R i x) js xs) {is : List α} :
    Forall₂ S is js ↔ Forall₂ R is xs := by
  induction h generalizing is with
  | nil => rw [List.forall₂_nil_right_iff, List.forall₂_nil_right_iff]
  | cons hx _ ih =>
    cases is with
    | nil => exact ⟨fun h => (by cases h), fun h => (by cases h)⟩
    | cons i is => rw [List.forall₂_cons, List.forall₂_cons, hx, ih]

lemma sameRoutines_iff {p : Parts} {features} :
    SameRoutines b { p.book with features } ↔ Forall₂ (SameAs b) b.order p.routines := by
  have holds : Forall₂ (Holds { p.book with features }) p.book.order p.routines :=
    (Book.holds_installed {} p.routines).imp fun _ _ h => ⟨h.known, h.rules⟩
  refine forall₂_iff_of_forall₂ (holds.imp fun i' x h i => ?_)
  obtain ⟨ids, hroutine, -, -⟩ := h.rules
  rw [h.rulesOf, hroutine]
  exact ⟨fun ⟨hname, hflags, hrules⟩ => ⟨hname, hflags, hrules⟩, fun ⟨hname, hflags, hrules⟩ => ⟨hname, hflags, hrules⟩⟩

/-- A book is written, read again and found to be the same. -/
def ComesBack (b : Book) : Prop :=
  ∃ n b', bookMarkup b = .ok n ∧ (readBook n).on {} = (.ok ⟨⟩, b') ∧ SameBook b b'

section
variable (h : PlainBook b)
include h

lemma isRule_routines (hrs : b.order.mapM (routineMarkup b) = .ok rs) :
    ∀ n ∈ rs, ∀ c ∈ n.children, IsRule c := by
  intro n hn
  obtain ⟨i, hi, hn⟩ := except_mapM_mem hrs hn
  exact isRule_routineMarkup (h.routines i hi) hn

lemma faithful_of_comesBack : ComesBack b → BookFaithful b := by
  rintro ⟨n, b', hn, hread, hsame⟩
  obtain ⟨cs, hcs, rs, hrs, fs, hfs, as, has, gs, hgs, rfl⟩ := bookMarkup_eq_ok.1 hn
  obtain ⟨p, features, hp, hfeatures, rfl⟩ := (readBook_on (isRule_routines h hrs)).1 hread
  obtain ⟨es, hes, hanchors⟩ := hp.anchors
  have hsameRoutines : SameRoutines b p.book := sameRoutines_iff.2 (sameRoutines_iff.1 hsame.routines)
  have hroutines := (routines_trip_iff h.routines).1
    ⟨rs, p.routines, hrs, hp.routines, sameRoutines_iff.1 hsame.routines⟩
  refine ⟨?_, hroutines, ?_, ?_, ?_⟩
  · exact (classes_trip_iff h.classKeys).1 ⟨cs, hcs, hp.classes ▸ hsame.classes⟩
  · rw [hp.features, merge_featureOf h.featureKeys hfs, mapM_map] at hfeatures
    intro f hf
    refine (feature_trip_iff h.names h.routines (fun i hi => (hroutines i hi).name) hsameRoutines
      (h.references f hf)).1 ?_
    exact except_mapM_trip.1 ⟨fs, features, hfs, hfeatures, hsame.features⟩ f hf
  · exact (anchors_trip_iff h.anchorKeys h.pointKeys).1 ⟨as, es, has, hes, hanchors ▸ hsame.anchors⟩
  · exact (categories_trip_iff h.categoryKeys).1 ⟨gs, hgs, hp.categories ▸ hsame.categories⟩

lemma comesBack_of_faithful : BookFaithful b → ComesBack b := by
  intro hf
  obtain ⟨cs, hcs, hclasses⟩ := (classes_trip_iff h.classKeys).2 hf.classes
  obtain ⟨rs, xs, hrs, hxs, hroutines⟩ := (routines_trip_iff h.routines).2 hf.routines
  obtain ⟨as, es, has, hes, hanchors⟩ := (anchors_trip_iff h.anchorKeys h.pointKeys).2 hf.anchors
  obtain ⟨gs, hgs, hcategories⟩ := (categories_trip_iff h.categoryKeys).2 hf.categories
  -- What references mean does not depend on the features that were read.
  let p (features : List (String × List Lookup)) : Parts := ⟨b.namedClasses, xs, features, b.anchors, b.glyphClasses⟩
  have hsameRoutines : SameRoutines b (p []).book := sameRoutines_iff.2 hroutines
  obtain ⟨fs, features, hfs, hfeatures, hsameFeatures⟩ := except_mapM_trip.2 fun f hmem =>
    (feature_trip_iff h.names h.routines (fun i hi => (hf.routines i hi).name) hsameRoutines
      (h.references f hmem)).2 (hf.features f hmem)
  have hresolved : (fs.map featureOf).mapM (resolvedFeature (p []).book) = .ok features := by
    rwa [mapM_map]
  have hmerged := merge_featureOf h.featureKeys hfs
  refine ⟨_, { (p (fs.map featureOf)).book with features },
    bookMarkup_eq_ok.2 ⟨cs, hcs, rs, hrs, fs, hfs, as, has, gs, hgs, rfl⟩,
    (readBook_on (isRule_routines h hrs)).2 ⟨p (fs.map featureOf), features, ?_, hresolved, rfl⟩, ?_⟩
  · exact ⟨hclasses.symm, hxs, hmerged.symm, ⟨es, hes, hanchors.symm⟩, hcategories.symm⟩
  · exact ⟨rfl, sameRoutines_iff.2 hroutines, hsameFeatures, rfl, rfl⟩

end

/-- **Reading undoes writing exactly where nothing is lost**: a plain book is written, read and found to be the
same if and only if every part of it is faithful. -/
theorem markup_round_trip_iff {b : Book} (h : PlainBook b) : ComesBack b ↔ BookFaithful b :=
  ⟨faithful_of_comesBack h, comesBack_of_faithful h⟩

/-- Two routines, the second put first, and something of every other part. -/
def specimen : Book where
  routines := #[{ name := some "forms", flags := .bits 8, content := .rules [0] },
    { name := some "kern", address := .list [.text "kern", .text "3"], content := .rules [1] }]
  rules := #[
    { body := .substitution
        { input := some [["a", "b"]], replacement := some [["c", "d"]], before := [["x"]], reversal := .backward } },
    { body := .positioning
        { glyphs := [["a"], ["b"]]
          values := [some { xPlacement := some (.int 0), xAdvance := some (.int (-20)) }, some {}] } }]
  order := [1, 0]
  features := [("rclt", [.ref { name := some (some "forms"), routine := some 0 }]),
    ("kern", [.ref { name := some (some "kern") }])]
  namedClasses := [("upper", ["A", "B"])]
  anchors := [("a", [("top", (.int 100, .int (-5)))])]
  glyphClasses := [("a", some "base")]

lemma plainBook_specimen : PlainBook specimen where
  routines i hi := by
    change i ∈ [1, 0] at hi
    simp only [mem_cons, not_mem_nil, or_false] at hi
    rcases hi with rfl | rfl
    · refine ⟨⟨"kern", rfl, by decide⟩, ⟨0, rfl⟩, forall_mem_singleton.2 ⟨rfl, ⟨0, rfl⟩, .inr ⟨_, rfl, ?_⟩⟩⟩
      decide
    · exact ⟨⟨"forms", rfl, by decide⟩, ⟨8, rfl⟩, forall_mem_singleton.2 ⟨rfl, ⟨0, rfl⟩, .inl ⟨_, rfl⟩⟩⟩
  names := by decide
  references := by simp [specimen]
  classKeys := by decide
  featureKeys := by decide
  anchorKeys := by decide
  pointKeys := by decide
  categoryKeys := by decide

lemma bookFaithful_specimen : BookFaithful specimen where
  classes := by decide
  routines i hi := by
    change i ∈ [1, 0] at hi
    simp only [mem_cons, not_mem_nil, or_false] at hi
    rcases hi with rfl | rfl
    · refine ⟨by decide, ⟨some "kern|3", rfl, by decide⟩, forall_mem_singleton.2 ?_⟩
      refine ⟨by decide, rfl, by decide, by decide, forall_mem_nil _, by decide, by decide, ?_⟩
      simp
    · refine ⟨by decide, ⟨none, rfl, by decide⟩, forall_mem_singleton.2 ?_⟩
      exact ⟨by decide, rfl, by decide, by decide, forall_mem_nil _, by decide, by decide, by decide⟩
  features := by
    refine forall_mem_cons.2 ⟨⟨by decide, fun r hr => ?_⟩, forall_mem_singleton.2 ⟨by decide, fun r hr => ?_⟩⟩
    · cases mem_singleton.1 hr
      exact ⟨0, by decide, rfl, .inr rfl⟩
    · cases mem_singleton.1 hr
      exact ⟨1, by decide, rfl, .inl rfl⟩
  anchors := forall_mem_singleton.2 ⟨by decide, forall_mem_singleton.2 ⟨by decide, ⟨100, rfl⟩, ⟨-5, rfl⟩⟩⟩
  categories := forall_mem_singleton.2 ⟨by decide, "base", rfl, by decide⟩

theorem markup_round_trip_specimen : PlainBook specimen ∧ ComesBack specimen :=
  ⟨plainBook_specimen, (markup_round_trip_iff plainBook_specimen).2 bookFaithful_specimen⟩

def letterRule (flags : Flags) (replacement : List Slot) : Book where
  routines := #[{ name := some "s", content := .rules [0] }]
  rules := #[{ body := .substitution { input := some [["a"]], replacement := some replacement }, flags }]
  order := [0]
  features := [("liga", [.ref { name := some (some "s"), routine := some 0 }])]

lemma plainBook_letterRule (n) (replacement) : PlainBook (letterRule (.bits n) replacement) where
  routines i hi := by
    cases mem_singleton.1 hi
    exact ⟨⟨"s", rfl, by decide⟩, ⟨0, rfl⟩, forall_mem_singleton.2 ⟨rfl, ⟨n, rfl⟩, .inl ⟨_, rfl⟩⟩⟩
  names := nodup_singleton _
  references := by simp [letterRule]
  classKeys := nodup_nil
  featureKeys := nodup_singleton _
  anchorKeys := nodup_nil
  pointKeys := forall_mem_nil _
  categoryKeys := nodup_nil

/-- **The flags of a rule come back as a text, and a replacement without slots comes back as missing.** -/
theorem markup_loses_flags : (PlainBook (letterRule (.bits 8) [["b"]]) ∧ ¬ComesBack (letterRule (.bits 8) [["b"]])) ∧
    PlainBook (letterRule (.bits 0) []) ∧ ¬ComesBack (letterRule (.bits 0) []) := by
  have rule {flags : Int} {replacement : List Slot} (h : ComesBack (letterRule (.bits flags) replacement)) :=
    ((faithful_of_comesBack (plainBook_letterRule flags replacement) h).routines 0 (List.mem_singleton_self _)).rules _
      (List.mem_singleton_self _)
  refine ⟨⟨plainBook_letterRule 8 _, fun h => ?_⟩, plainBook_letterRule 0 _, fun h => ?_⟩
  · exact absurd (rule h).flags (by decide)
  · exact (rule h).body.1.2 rfl

end GlyphRules.Markup
