import GlyphRules.Book.Scripts
import GlyphRules.Proofs.Dict

/-! What a feature map lists.

A call is put under the key of each language system it is for, and under those that a default
covers, but is listed once under each (`FeatureMap.get?_foldl_put`). So the calls of a feature are
listed in their order under the keys that their systems cover (`FeatureMap.get?_putCalls`). -/
namespace GlyphRules

open List

variable {cs : List (Nat × Lookup)} {m : FeatureMap} {key : FeatureKey}

namespace FeatureMap

def get? (m : FeatureMap) (key : FeatureKey) : Option (List (Nat × Lookup)) :=
  (m.find? (·.1 == key)).map (·.2)

def withCall (cs : List (Nat × Lookup)) (call : Nat × Lookup) : List (Nat × Lookup) :=
  if cs.any (·.1 == call.1) then cs else cs ++ [call]

/-- There is no entry without calls. -/
def entry (cs : List (Nat × Lookup)) : Option (List (Nat × Lookup)) := if cs = [] then none else some cs

lemma entry_getD (cs) : (entry cs).getD [] = cs := by
  unfold entry
  split
  · next h => exact h.symm
  · rfl

lemma entry_eq_some : entry cs = some ds ↔ cs ≠ [] ∧ ds = cs := by
  unfold entry
  split <;> simp_all [eq_comm]

lemma withCall_ne_nil (cs) (call) : withCall cs call ≠ [] := by
  unfold withCall
  split
  · next h =>
    rintro rfl
    cases h
  · simp

/-! ### One call -/

lemma get?_put (m : FeatureMap) (key k) (call) : (m.put key call).get? k =
    if k = key then some (withCall ((m.get? k).getD []) call) else m.get? k := by
  refine (Dict.get?_alter m key k [] (withCall · call)).trans ?_
  split
  · next h => rw [h, get?, Dict.get?]
  · rfl

lemma get?_foldl_put (call) (keys : List FeatureKey) {k} (h : m.get? k = entry cs) :
    (keys.foldl (fun m key => m.put key call) m).get? k = entry (if k ∈ keys then withCall cs call else cs) := by
  induction keys generalizing m cs with
  | nil => simpa using h
  | cons key keys ih =>
    have one : (m.put key call).get? k = entry (if k = key then withCall cs call else cs) := by
      rw [get?_put, h, entry_getD]
      split
      · exact (entry_eq_some.2 ⟨withCall_ne_nil cs call, rfl⟩).symm
      · rfl
    rw [foldl_cons, ih one]
    by_cases hkey : k = key
    · by_cases hkeys : k ∈ keys
      · simp only [hkey]
        grind [withCall]
      · simp [hkey, hkey ▸ hkeys]
    · simp [hkey]

/-! ### Language systems -/

def covers (pairs : List LanguageSystem) (system p : LanguageSystem) : Bool :=
  system == p || pairs.contains p && (system == ("DFLT", "dflt") || system == (p.1, "dflt"))

def coveredKeys (pairs : List LanguageSystem) (tag : String) (system : LanguageSystem) : List FeatureKey :=
  ⟨tag, system.1, system.2⟩ ::
    (pairs.filter fun p => system == ("DFLT", "dflt") || (system.1 == p.1 && system.2 == "dflt")).map fun p =>
      ⟨tag, p.1, p.2⟩

lemma putCovered_eq (m : FeatureMap) (pairs) (tag) (system)
    (call) : m.putCovered pairs tag system call =
      (coveredKeys pairs tag system).foldl (fun m key => m.put key call) m := by
  unfold putCovered coveredKeys
  rw [foldl_cons, foldl_map, foldl_filter]

lemma mem_coveredKeys {system} :
    key ∈ coveredKeys pairs tag system ↔ key.tag = tag ∧ covers pairs system (key.script, key.language) = true := by
  obtain ⟨tag', script, language⟩ := key
  obtain ⟨s, l⟩ := system
  simp only [coveredKeys, covers, mem_cons, mem_map, mem_filter, FeatureKey.mk.injEq,
    Bool.or_eq_true, Bool.and_eq_true, beq_iff_eq, Prod.mk.injEq, contains_iff_mem]
  constructor
  · rintro (⟨rfl, rfl, rfl⟩ | ⟨⟨s', l'⟩, ⟨hp, hdefault⟩, rfl, rfl, rfl⟩)
    · exact ⟨rfl, .inl ⟨rfl, rfl⟩⟩
    · exact ⟨rfl, .inr ⟨hp, hdefault⟩⟩
  · rintro ⟨rfl, ⟨rfl, rfl⟩ | ⟨hp, hdefault⟩⟩
    · exact .inl ⟨rfl, rfl, rfl⟩
    · exact .inr ⟨(script, language), ⟨hp, hdefault⟩, rfl, rfl, rfl⟩

lemma get?_foldl_putCovered (pairs) (tag) (systems : List LanguageSystem)
    (call) (h : m.get? key = entry cs) :
    (systems.foldl (fun m s => m.putCovered pairs tag s call) m).get? key =
      entry (if key.tag = tag ∧ systems.any (covers pairs · (key.script, key.language)) = true
        then withCall cs call else cs) := by
  have flat : systems.foldl (fun m s => m.putCovered pairs tag s call) m =
      (systems.flatMap (coveredKeys pairs tag)).foldl (fun m key => m.put key call) m := by
    rw [foldl_flatMap]
    simp only [putCovered_eq]
  have mem : key ∈ systems.flatMap (coveredKeys pairs tag) ↔
      key.tag = tag ∧ systems.any (covers pairs · (key.script, key.language)) = true := by
    simp only [mem_flatMap, mem_coveredKeys, any_eq_true]
    constructor
    · rintro ⟨s, hs, htag, hcovers⟩
      exact ⟨htag, s, hs, hcovers⟩
    · rintro ⟨htag, s, hs, hcovers⟩
      exact ⟨s, hs, htag, hcovers⟩
  rw [flat, get?_foldl_put call _ h]
  simp only [mem]

/-! ### Features -/

def picked (systems : Lookup → List LanguageSystem) (pairs : List LanguageSystem) (p : LanguageSystem)
    (calls : List (Lookup × Nat)) : List (Nat × Lookup) :=
  (calls.filter fun c => (systems c.1).any (covers pairs · p)).map fun c => (c.2, c.1)

def putCall (systems : Lookup → List LanguageSystem) (pairs : List LanguageSystem) (tag : String)
    (m : FeatureMap) (c : Lookup × Nat) : FeatureMap :=
  (systems c.1).foldl (fun m s => m.putCovered pairs tag s (c.2, c.1)) m

lemma get?_putCalls (systems) (pairs) (tag)
    (calls : List Lookup) (n) (h : m.get? key = entry cs) (hcs : key.tag = tag → ∀ c ∈ cs, c.1 < n) :
    ((calls.zipIdx n).foldl (putCall systems pairs tag) m).get? key =
      entry (if key.tag = tag then cs ++ picked systems pairs (key.script, key.language) (calls.zipIdx n)
        else cs) := by
  induction calls generalizing m cs n with
  | nil => simpa [picked] using h
  | cons call calls ih =>
    have one : (putCall systems pairs tag m (call, n)).get? key = _ :=
      get?_foldl_putCovered pairs tag (systems call) (n, call) h
    rw [zipIdx_cons, foldl_cons]
    by_cases htag : key.tag = tag
    · have new : cs.any (·.1 == n) = false := by
        rw [any_eq_false]
        intro c hc heq
        exact Nat.lt_irrefl n ((eq_of_beq heq) ▸ hcs htag c hc)
      by_cases hcovers : (systems call).any (covers pairs · (key.script, key.language)) = true
      · rw [if_pos ⟨htag, hcovers⟩] at one
        rw [ih (n + 1) one]
        · simp [htag, picked, hcovers, withCall, new]
        · intro _ c hc
          simp only [withCall, new, Bool.false_eq_true, if_false, mem_append, mem_singleton] at hc
          rcases hc with hc | rfl
          · exact Nat.lt_succ_of_lt (hcs htag c hc)
          · exact Nat.lt_succ_self n
      · rw [if_neg fun hboth => hcovers hboth.2] at one
        rw [ih (n + 1) one fun htag c hc => Nat.lt_succ_of_lt (hcs htag c hc)]
        simp [picked, hcovers]
    · rw [ih (n + 1) one fun htag' => absurd htag' htag]
      simp [htag]

def putFeatures (systems : Lookup → List LanguageSystem) (pairs : List LanguageSystem)
    (features : List (String × List Lookup)) (m : FeatureMap) : FeatureMap :=
  features.foldl (fun m f => f.2.zipIdx.foldl (putCall systems pairs f.1) m) m

section
variable (systems : Lookup → List LanguageSystem) (pairs : List LanguageSystem) {features : List (String × List Lookup)}
include systems pairs

lemma get?_putFeatures_of_not_mem (hkey : key.tag ∉ features.map (·.1)) (h : m.get? key = entry cs) :
    (putFeatures systems pairs features m).get? key = entry cs := by
  induction features generalizing m with
  | nil => exact h
  | cons f features ih =>
    obtain ⟨hne, hnot⟩ := ne_and_not_mem_of_not_mem_cons hkey
    have one := get?_putCalls systems pairs f.1 f.2 0 h fun htag => absurd htag hne
    rw [if_neg hne] at one
    exact ih hnot one

/-- **Each feature has its own keys**, and under them its calls for the language systems that are covered. -/
lemma get?_putFeatures (hnodup : (features.map (·.1)).Nodup) {f}
    (hf : f ∈ features) (p) :
    (putFeatures systems pairs features []).get? ⟨f.1, p.1, p.2⟩ = entry (picked systems pairs p f.2.zipIdx) := by
  obtain ⟨front, back, rfl⟩ := append_of_mem hf
  rw [map_append, map_cons, nodup_append, nodup_cons] at hnodup
  obtain ⟨-, ⟨hback, -⟩, hfront⟩ := hnodup
  have before : (putFeatures systems pairs front []).get? ⟨f.1, p.1, p.2⟩ = entry [] :=
    get?_putFeatures_of_not_mem systems pairs (fun hmem => hfront _ hmem _ (.head _) rfl) rfl
  have own := get?_putCalls systems pairs f.1 f.2 0 before (by simp)
  rw [if_pos rfl] at own
  have split : putFeatures systems pairs (front ++ f :: back) [] = putFeatures systems pairs back
      (f.2.zipIdx.foldl (putCall systems pairs f.1) (putFeatures systems pairs front [])) := by
    unfold putFeatures
    rw [foldl_append, foldl_cons]
  rw [split]
  exact get?_putFeatures_of_not_mem systems pairs hback own

end

end FeatureMap
end GlyphRules
