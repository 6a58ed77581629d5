import Mathlib.Logic.Function.Basic
import Mathlib.Data.List.Nodup
import Mathlib.Data.List.Perm.Basic

/-!
# Hashed chains

A table of chains, one for each bucket. A value is put at the front of the chain
that its key hashes to, and a search takes the first value with the key. What the
table holds for a key is a stack: values that share the chain do not matter.
-/

namespace Madcap.Buckets

section

variable {ι K V : Type*} [DecidableEq K] (place : K → ι) (key : V → K)

def find (t : ι → List V) (k : K) : Option V := (t (place k)).find? fun v => key v == k

/-- The values with a key, the newest first. -/
def stack (t : ι → List V) (k : K) : List V := (t (place k)).filter fun v => key v == k

/-- Every value is in its bucket, and no key is there twice. -/
structure Ok (t : ι → List V) : Prop where
  placed : ∀ n, ∀ v ∈ t n, place (key v) = n
  unique : ∀ k, (stack place key t k).length ≤ 1

variable {place key} {t : ι → List V} {v : V} {k k' : K}

theorem find_eq_head? : find place key t k = (stack place key t k).head? := by
  unfold find stack
  rw [List.head?_filter]

theorem find_eq_none : find place key t k = none ↔ stack place key t k = [] := by
  rw [find_eq_head?, List.head?_eq_none_iff]

theorem find_eq_some (h : find place key t k = some v) : key v = k ∧ v ∈ t (place k) := by
  constructor
  · simpa using List.find?_some h
  · exact List.mem_of_find?_eq_some h

theorem Ok.empty : Ok place key fun _ => [] where
  placed n v hv := by cases hv
  unique k := Nat.zero_le 1

theorem Ok.filter (h : Ok place key t) (p : V → Bool) : Ok place key fun n => (t n).filter p where
  placed n w hw := h.placed n w (List.mem_of_mem_filter hw)
  unique k := by
    apply Nat.le_trans (List.Sublist.length_le _) (h.unique k)
    exact List.filter_sublist.filter _

theorem Ok.nodup_bucket (h : Ok place key t) (n : ι) : ((t n).map key).Nodup := by
  rw [List.nodup_iff_count_le_one]
  intro k
  by_cases hn : place k = n
  · subst hn
    rw [List.count, List.countP_map, List.countP_eq_length_filter]
    exact h.unique k
  · rw [List.count_eq_zero_of_not_mem]
    · exact Nat.zero_le 1
    · intro hk
      obtain ⟨v, hv, rfl⟩ := List.mem_map.mp hk
      exact hn (h.placed n v hv)

/-- No key occurs twice in the whole table. -/
theorem Ok.nodup (h : Ok place key t) {ns : List ι} (hns : ns.Nodup) :
    ((ns.flatMap t).map key).Nodup := by
  rw [List.map_flatMap, List.nodup_flatMap]
  refine ⟨fun n _ => h.nodup_bucket n, hns.imp ?_⟩
  intro a b hab k hka hkb
  obtain ⟨v, hv, rfl⟩ := List.mem_map.mp hka
  obtain ⟨w, hw, hkey⟩ := List.mem_map.mp hkb
  rw [← h.placed a v hv, ← h.placed b w hw, hkey] at hab
  exact hab rfl

theorem flatMap_eq_of_nodup {α β : Type*} {l : List α} {f : α → List β} {a : α} (hl : l.Nodup)
    (ha : a ∈ l) (h : ∀ b ∈ l, b ≠ a → f b = []) : l.flatMap f = f a := by
  induction l with
  | nil => cases ha
  | cons b l ih =>
    obtain ⟨hb, hl⟩ := List.nodup_cons.mp hl
    rw [List.flatMap_cons]
    by_cases hba : b = a
    · subst hba
      have hrest : l.flatMap f = [] := List.flatMap_eq_nil_iff.mpr fun c hc =>
        h c (List.mem_cons_of_mem b hc) fun hcb => hb (hcb ▸ hc)
      rw [hrest, List.append_nil]
    · rw [h b List.mem_cons_self hba, List.nil_append]
      exact ih hl ((List.mem_cons.mp ha).resolve_left (Ne.symm hba)) fun c hc =>
        h c (List.mem_cons_of_mem b hc)

theorem filter_flatMap (h : ∀ n, ∀ v ∈ t n, place (key v) = n) {ns : List ι} (hns : ns.Nodup)
    (hk : place k ∈ ns) : ((ns.flatMap t).filter fun v => key v == k) = stack place key t k := by
  rw [List.filter_flatMap]
  refine flatMap_eq_of_nodup hns hk fun n _ hn => List.filter_eq_nil_iff.mpr fun v hv hkey => hn ?_
  rw [← h n v hv, beq_iff_eq.mp hkey]

section

variable {W : Type*} {look : V → W} {key' : W → K} {t' : ι → List V}

theorem find_congr (hkey : ∀ v, key' (look v) = key v)
    (hlook : ∀ n, (t' n).map look = (t n).map look) (k : K) :
    (find place key t' k).map look = (find place key t k).map look := by
  have hfind : ∀ l : List V, (l.find? fun v => key v == k).map look =
      (l.map look).find? fun w => key' w == k := by
    intro l
    rw [List.find?_map]
    congr 2
    funext v
    rw [Function.comp_apply, hkey]
  unfold find
  rw [hfind, hfind, hlook]

theorem Ok.congr (h : Ok place key t) (hkey : ∀ v, key' (look v) = key v)
    (hlook : ∀ n, (t' n).map look = (t n).map look) : Ok place key t' where
  placed n v hv := by
    have hmem : look v ∈ (t n).map look := hlook n ▸ List.mem_map_of_mem hv
    obtain ⟨w, hw, hvw⟩ := List.mem_map.mp hmem
    rw [← hkey, ← hvw, hkey]
    exact h.placed n w hw
  unique k := by
    have hstack : ∀ l : List V, (l.filter fun v => key v == k).length =
        ((l.map look).filter fun w => key' w == k).length := by
      intro l
      rw [List.filter_map, List.length_map]
      congr 2
      funext v
      rw [Function.comp_apply, hkey]
    have hone := h.unique k
    unfold stack at hone ⊢
    rwa [hstack, hlook, ← hstack]

end

theorem filter_eraseP_self (p : V → Bool) (l : List V) :
    (l.eraseP p).filter p = (l.filter p).tail := by
  induction l with
  | nil => rfl
  | cons a l ih =>
    by_cases ha : p a
    · rw [List.eraseP_cons_of_pos ha, List.filter_cons_of_pos ha, List.tail_cons]
    · rw [List.eraseP_cons_of_neg ha, List.filter_cons_of_neg ha, List.filter_cons_of_neg ha, ih]

theorem filter_eraseP_of_disjoint {p q : V → Bool} (hpq : ∀ v, p v = true → q v = false)
    (l : List V) : (l.eraseP p).filter q = l.filter q := by
  induction l with
  | nil => rfl
  | cons a l ih =>
    by_cases ha : p a
    · rw [List.eraseP_cons_of_pos ha, List.filter_cons_of_neg (by simp [hpq a ha])]
    · rw [List.eraseP_cons_of_neg ha, List.filter_cons, List.filter_cons, ih]

section

variable [DecidableEq ι] (place key)

def insert (t : ι → List V) (v : V) : ι → List V :=
  Function.update t (place (key v)) (v :: t (place (key v)))

/-- Unlink the value that a search for the key returns. -/
def erase (t : ι → List V) (k : K) : ι → List V :=
  Function.update t (place k) ((t (place k)).eraseP fun v => key v == k)

variable {place key}

/-- An insertion pushes on the stack of its key. -/
theorem stack_insert : stack place key (insert place key t v) k =
    if key v = k then v :: stack place key t k else stack place key t k := by
  unfold stack insert
  by_cases hplace : place k = place (key v)
  · rw [hplace, Function.update_self, List.filter_cons]
    simp only [beq_iff_eq]
  · rw [Function.update_of_ne hplace, if_neg]
    rintro rfl
    exact hplace rfl

theorem stack_erase : stack place key (erase place key t k') k =
    if k' = k then (stack place key t k).tail else stack place key t k := by
  unfold stack erase
  by_cases hk : k' = k
  · subst hk
    rw [Function.update_self, if_pos rfl, filter_eraseP_self]
  · rw [if_neg hk]
    by_cases hplace : place k = place k'
    · rw [hplace, Function.update_self]
      apply filter_eraseP_of_disjoint
      intro v hv
      rw [beq_iff_eq] at hv
      simpa [hv] using hk
    · rw [Function.update_of_ne hplace]

omit [DecidableEq K] in
theorem mem_insert {n : ι} {w : V} (h : w ∈ insert place key t v n) : w = v ∨ w ∈ t n := by
  unfold insert at h
  by_cases hn : n = place (key v)
  · subst hn
    rw [Function.update_self] at h
    exact List.mem_cons.mp h
  · rw [Function.update_of_ne hn] at h
    exact .inr h

omit [DecidableEq K] in
theorem placed_insert (h : ∀ n, ∀ w ∈ t n, place (key w) = n) (n : ι) (w : V)
    (hw : w ∈ insert place key t v n) : place (key w) = n := by
  unfold insert at hw
  by_cases hn : n = place (key v)
  · subst hn
    rw [Function.update_self] at hw
    rcases List.mem_cons.mp hw with rfl | hw
    · rfl
    · exact h _ w hw
  · rw [Function.update_of_ne hn] at hw
    exact h n w hw

theorem mem_of_mem_erase {n : ι} (h : v ∈ erase place key t k n) : v ∈ t n := by
  unfold erase at h
  by_cases hn : n = place k
  · subst hn
    rw [Function.update_self] at h
    exact List.mem_of_mem_eraseP h
  · rwa [Function.update_of_ne hn] at h

theorem find_insert : find place key (insert place key t v) k =
    if key v = k then some v else find place key t k := by
  rw [find_eq_head?, find_eq_head?, stack_insert]
  split_ifs <;> rfl

namespace Ok

theorem insert (h : Ok place key t) (hnone : find place key t (key v) = none) :
    Ok place key (insert place key t v) where
  placed := placed_insert h.placed
  unique k := by
    rw [stack_insert]
    split_ifs with hk
    · subst hk
      rw [find_eq_none.mp hnone]
      exact Nat.le_refl 1
    · exact h.unique k

theorem erase (h : Ok place key t) (k : K) : Ok place key (erase place key t k) where
  placed n w hw := h.placed n w (mem_of_mem_erase hw)
  unique k' := by
    rw [stack_erase]
    split_ifs
    · rw [List.length_tail]
      exact Nat.le_trans (Nat.sub_le _ 1) (h.unique k')
    · exact h.unique k'

theorem find_erase (h : Ok place key t) : find place key (Buckets.erase place key t k') k =
    if k' = k then none else find place key t k := by
  rw [find_eq_head?, find_eq_head?, stack_erase]
  split_ifs
  · have hlen := h.unique k
    rw [List.head?_eq_none_iff, ← List.length_eq_zero_iff, List.length_tail]
    omega
  · rfl

end Ok

end

end

end Madcap.Buckets
