import Mathlib.Data.Fintype.Card
import Mathlib.Data.List.FinRange
import Mathlib.Data.Set.Card

/-!
# Slot arrays

A map kept in an array of slots. A key goes to the first free slot and leaves a hole
when it is taken out, so that the slots in use are in no order. What the array holds is
a finite map with room for as many keys as it has slots.
-/

namespace Madcap.Slots

variable {K V : Type*} {n : ℕ}

def slotOf [DecidableEq K] (keys : Fin n → Option K) (k : K) : Option (Fin n) :=
  (List.finRange n).find? fun i => keys i = some k

def free (keys : Fin n → Option K) : Option (Fin n) :=
  (List.finRange n).find? fun i => keys i = none

/-- The map in an array of keys and an array of their values. -/
def lookup [DecidableEq K] (keys : Fin n → Option K) (vals : Fin n → Option V) (k : K) : Option V :=
  (slotOf keys k).bind vals

/-- Every key has its value, and no key is there twice. -/
structure Ok (keys : Fin n → Option K) (vals : Fin n → Option V) : Prop where
  paired : ∀ i, (vals i).isSome = (keys i).isSome
  unique : ∀ i j k, keys i = some k → keys j = some k → i = j

def domain (m : K → Option V) : Set K := {k | (m k).isSome = true}

variable {keys : Fin n → Option K} {vals : Fin n → Option V} {k : K} {v : V} {i : Fin n}

theorem slotOf_eq_none [DecidableEq K] : slotOf keys k = none ↔ ∀ i, keys i ≠ some k := by
  unfold slotOf
  rw [List.find?_eq_none]
  constructor
  · intro h i hi
    exact h i (List.mem_finRange i) (decide_eq_true hi)
  · intro h i _ hi
    exact h i (of_decide_eq_true hi)

theorem key_of_slotOf [DecidableEq K] (h : slotOf keys k = some i) : keys i = some k := by
  simpa using List.find?_some h

theorem free_eq_none : free keys = none ↔ ∀ i, keys i ≠ none := by
  unfold free
  rw [List.find?_eq_none]
  constructor
  · intro h i hi
    exact h i (List.mem_finRange i) (decide_eq_true hi)
  · intro h i _ hi
    exact h i (of_decide_eq_true hi)

/-- A free slot is found where the first hole is. -/
theorem free_eq_some (h : free keys = some i) : keys i = none ∧ ∀ j < i, keys j ≠ none := by
  unfold free at h
  obtain ⟨hi, before, after, hsplit, hbefore⟩ := List.find?_eq_some_iff_append.mp h
  refine ⟨of_decide_eq_true hi, fun j hj hnone => ?_⟩
  have hsorted := List.pairwise_lt_finRange n
  rw [hsplit] at hsorted
  have hmem : j ∈ before ++ i :: after := hsplit ▸ List.mem_finRange j
  rcases List.mem_append.mp hmem with hj' | hj'
  · have hused := hbefore j hj'
    rw [hnone] at hused
    cases hused
  · have hle : i ≤ j := by
      rcases List.mem_cons.mp hj' with rfl | hafter
      · exact le_refl j
      · have hrest := (List.pairwise_append.mp hsorted).2.1
        exact le_of_lt ((List.pairwise_cons.mp hrest).1 j hafter)
    exact absurd hj (not_lt.mpr hle)

namespace Ok

theorem empty : Ok (fun _ : Fin n => (none : Option K)) (fun _ => (none : Option V)) where
  paired i := rfl
  unique i j k h := by cases h

theorem put (h : Ok keys vals) (hk : ∀ i, keys i ≠ some k) (i : Fin n) (v : V) :
    Ok (Function.update keys i (some k)) (Function.update vals i (some v)) where
  paired j := by
    by_cases hj : j = i
    · rw [hj, Function.update_self, Function.update_self]
      rfl
    · rw [Function.update_of_ne hj, Function.update_of_ne hj]
      exact h.paired j
  unique j l k' hj hl := by
    by_cases hji : j = i <;> by_cases hli : l = i
    · rw [hji, hli]
    · rw [hji, Function.update_self] at hj
      rw [Function.update_of_ne hli, ← hj] at hl
      exact absurd hl (hk l)
    · rw [hli, Function.update_self] at hl
      rw [Function.update_of_ne hji, ← hl] at hj
      exact absurd hj (hk j)
    · rw [Function.update_of_ne hji] at hj
      rw [Function.update_of_ne hli] at hl
      exact h.unique j l k' hj hl

section

variable [DecidableEq K]

theorem slotOf_eq (h : Ok keys vals) (hi : keys i = some k) : slotOf keys k = some i := by
  cases hfind : slotOf keys k with
  | none => exact absurd hi (slotOf_eq_none.mp hfind i)
  | some j => rw [h.unique j i k (key_of_slotOf hfind) hi]

theorem lookup_eq (h : Ok keys vals) (hi : keys i = some k) : lookup keys vals k = vals i := by
  unfold lookup
  rw [h.slotOf_eq hi]
  rfl

theorem lookup_isSome (h : Ok keys vals) :
    (lookup keys vals k).isSome = true ↔ ∃ i, keys i = some k := by
  constructor
  · intro hsome
    cases hfind : slotOf keys k with
    | none =>
      unfold lookup at hsome
      rw [hfind] at hsome
      cases hsome
    | some i => exact ⟨i, key_of_slotOf hfind⟩
  · rintro ⟨i, hi⟩
    rw [h.lookup_eq hi, h.paired, hi]
    rfl

theorem lookup_eq_none (h : Ok keys vals) :
    lookup keys vals k = none ↔ ∀ i, keys i ≠ some k := by
  rw [← Option.not_isSome_iff_eq_none, h.lookup_isSome, not_exists]

theorem ncard_domain (h : Ok keys vals) :
    (domain (lookup keys vals)).ncard = {i | keys i ≠ none}.ncard := by
  have himage : some '' domain (lookup keys vals) = keys '' {i | keys i ≠ none} := by
    ext o
    constructor
    · rintro ⟨k, hk, rfl⟩
      obtain ⟨i, hi⟩ := h.lookup_isSome.mp hk
      exact ⟨i, Option.ne_none_iff_exists'.mpr ⟨k, hi⟩, hi⟩
    · rintro ⟨i, hi, rfl⟩
      obtain ⟨k, hk⟩ := Option.ne_none_iff_exists'.mp hi
      exact ⟨k, h.lookup_isSome.mpr ⟨i, hk⟩, hk.symm⟩
  have hinj : Set.InjOn keys {i | keys i ≠ none} := by
    intro i hi j _ hij
    obtain ⟨k, hk⟩ := Option.ne_none_iff_exists'.mp hi
    exact h.unique i j k hk (hij ▸ hk)
  rw [← Set.ncard_image_of_injective _ (Option.some_injective K), himage,
    hinj.ncard_image]

/-- There is no free slot exactly when the map is full. -/
theorem free_eq_none_iff (h : Ok keys vals) :
    free keys = none ↔ (domain (lookup keys vals)).ncard = n := by
  have hfull := Set.eq_univ_iff_ncard {i | keys i ≠ none}
  rw [Nat.card_eq_fintype_card, Fintype.card_fin] at hfull
  rw [h.ncard_domain, free_eq_none, ← hfull, Set.eq_univ_iff_forall]
  rfl

theorem lookup_put (h : Ok keys vals) (hk : ∀ i, keys i ≠ some k) (hi : keys i = none) (v : V) :
    lookup (Function.update keys i (some k)) (Function.update vals i (some v)) =
      Function.update (lookup keys vals) k (some v) := by
  have hput := h.put hk i v
  funext k'
  by_cases hkk : k' = k
  · subst hkk
    rw [hput.lookup_eq (i := i) (by rw [Function.update_self]), Function.update_self,
      Function.update_self]
  · rw [Function.update_of_ne hkk]
    cases hold : slotOf keys k' with
    | none =>
      have hnone := slotOf_eq_none.mp hold
      rw [h.lookup_eq_none.mpr hnone, hput.lookup_eq_none]
      intro j hj
      by_cases hji : j = i
      · rw [hji, Function.update_self] at hj
        exact hkk (Option.some.inj hj).symm
      · rw [Function.update_of_ne hji] at hj
        exact hnone j hj
    | some j =>
      have hj := key_of_slotOf hold
      have hji : j ≠ i := by
        rintro rfl
        rw [hi] at hj
        cases hj
      rw [hput.lookup_eq (i := j) (by rw [Function.update_of_ne hji, hj]), h.lookup_eq hj,
        Function.update_of_ne hji]

theorem drop (h : Ok keys vals) (k : K) :
    Ok (fun i => if keys i = some k then none else keys i)
      (fun i => if keys i = some k then none else vals i) where
  paired i := by
    split_ifs
    · rfl
    · exact h.paired i
  unique i j k' hi hj := by
    split_ifs at hi hj
    exact h.unique i j k' hi hj

theorem lookup_drop (h : Ok keys vals) (k : K) :
    lookup (fun i => if keys i = some k then none else keys i)
      (fun i => if keys i = some k then none else vals i) =
      Function.update (lookup keys vals) k none := by
  have hdrop := h.drop k
  funext k'
  by_cases hkk : k' = k
  · subst hkk
    rw [Function.update_self, hdrop.lookup_eq_none]
    intro i hi
    split_ifs at hi with hki
    exact hki hi
  · rw [Function.update_of_ne hkk]
    cases hold : slotOf keys k' with
    | none =>
      have hnone := slotOf_eq_none.mp hold
      rw [h.lookup_eq_none.mpr hnone, hdrop.lookup_eq_none]
      intro i hi
      split_ifs at hi
      exact hnone i hi
    | some i =>
      have hi := key_of_slotOf hold
      have hne : keys i ≠ some k := by
        rw [hi]
        exact fun heq => hkk (Option.some.inj heq)
      rw [hdrop.lookup_eq (i := i) (by rw [if_neg hne, hi]), h.lookup_eq hi, if_neg hne]

end

end Ok

end Madcap.Slots
