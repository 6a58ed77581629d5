import Mathlib.Data.List.MinMax
import Mathlib.Tactic

/-!
# Longest-prefix match

A routing table as a plain list of prefixes, searched by scanning it. This is the
meaning that a cleverer structure has to agree with. A prefix is a finite string
over any alphabet and covers the strings it begins.
-/

namespace Madcap.LongestPrefix

variable {ρ β : Type*} [DecidableEq β]

structure Entry (ρ β : Type*) where
  ref : ρ
  pfx : List β
  deriving DecidableEq

abbrev Table (ρ β : Type*) := List (Entry ρ β)

namespace Table

def exact (t : Table ρ β) (k : List β) : Option ρ :=
  (t.find? fun e => e.pfx = k).map Entry.ref

/-- The entry with the longest prefix of a given string. -/
def best (t : Table ρ β) (d : List β) : Option ρ :=
  ((t.filter fun e => e.pfx <+: d).argmax fun e => e.pfx.length).map Entry.ref

/-- A new entry, unless its prefix is taken. -/
def insert (t : Table ρ β) (e : Entry ρ β) : Table ρ β :=
  if (t.exact e.pfx).isSome then t else e :: t

/-- The table without a prefix. -/
def erase (t : Table ρ β) (k : List β) : Table ρ β := t.filter fun e => e.pfx ≠ k

/-- No prefix occurs twice. -/
def Distinct (t : Table ρ β) : Prop := (t.map Entry.pfx).Nodup

variable {t : Table ρ β} {e e' : Entry ρ β} {k d : List β} {r : ρ}

omit [DecidableEq β] in
theorem Distinct.eq (ht : t.Distinct) (he : e ∈ t) (he' : e' ∈ t) (h : e.pfx = e'.pfx) :
    e = e' :=
  List.inj_on_of_nodup_map ht he he' h

theorem exact_eq_none : t.exact k = none ↔ ∀ e ∈ t, e.pfx ≠ k := by
  simp [exact]

theorem exact_eq_some (ht : t.Distinct) :
    t.exact k = some r ↔ ∃ e ∈ t, e.ref = r ∧ e.pfx = k := by
  constructor
  · intro h
    obtain ⟨e, he, rfl⟩ := Option.map_eq_some_iff.mp h
    exact ⟨e, List.mem_of_find?_eq_some he, rfl, by simpa using List.find?_some he⟩
  · rintro ⟨e, he, rfl, rfl⟩
    cases h : t.exact e.pfx with
    | none => exact absurd rfl (exact_eq_none.mp h e he)
    | some r =>
      obtain ⟨e', he', rfl⟩ := Option.map_eq_some_iff.mp h
      have hpfx : e'.pfx = e.pfx := by simpa using List.find?_some he'
      rw [ht.eq (List.mem_of_find?_eq_some he') he hpfx]

theorem best_eq_none : t.best d = none ↔ ∀ e ∈ t, ¬ e.pfx <+: d := by
  simp [best]

/-- Among the prefixes of one string the length decides. -/
theorem best_eq_some (ht : t.Distinct) :
    t.best d = some r ↔ ∃ e ∈ t, e.ref = r ∧ e.pfx <+: d ∧
      ∀ e' ∈ t, e'.pfx <+: d → e'.pfx.length ≤ e.pfx.length := by
  constructor
  · intro h
    obtain ⟨e, he, rfl⟩ := Option.map_eq_some_iff.mp h
    obtain ⟨hmem, hcov⟩ := List.mem_filter.mp (List.argmax_mem he)
    refine ⟨e, hmem, rfl, by simpa using hcov, fun e' he' hcov' => ?_⟩
    exact List.le_of_mem_argmax (f := fun e : Entry ρ β => e.pfx.length)
      (List.mem_filter.mpr ⟨he', by simpa using hcov'⟩) he
  · rintro ⟨e, he, rfl, hcov, hmax⟩
    cases h : t.best d with
    | none => exact absurd hcov (best_eq_none.mp h e he)
    | some r =>
      obtain ⟨e', he', rfl⟩ := Option.map_eq_some_iff.mp h
      obtain ⟨hmem', hcov'⟩ := List.mem_filter.mp (List.argmax_mem he')
      have hle := hmax e' hmem' (by simpa using hcov')
      have hge := List.le_of_mem_argmax (f := fun e : Entry ρ β => e.pfx.length)
        (List.mem_filter.mpr ⟨he, by simpa using hcov⟩) he'
      have hpre : e'.pfx <+: e.pfx :=
        List.prefix_of_prefix_length_le (by simpa using hcov') hcov hle
      rw [ht.eq hmem' he (hpre.eq_of_length (le_antisymm hle hge))]

theorem mem_insert : e' ∈ t.insert e ↔ e' ∈ t ∨ e' = e ∧ t.exact e.pfx = none := by
  unfold insert
  cases h : t.exact e.pfx <;> simp [or_comm]

theorem mem_erase : e ∈ t.erase k ↔ e ∈ t ∧ e.pfx ≠ k := by
  simp [erase]

theorem Distinct.insert (ht : t.Distinct) (e : Entry ρ β) : (t.insert e).Distinct := by
  unfold Table.insert
  cases h : t.exact e.pfx with
  | some r => simpa using ht
  | none =>
    have hnew := exact_eq_none.mp h
    simp only [Option.isSome_none, Bool.false_eq_true, if_false, Distinct, List.map_cons,
      List.nodup_cons, List.mem_map, not_exists, not_and]
    exact ⟨fun e' he' => hnew e' he', ht⟩

theorem Distinct.erase (ht : t.Distinct) (k : List β) : (t.erase k).Distinct :=
  ht.sublist (List.filter_sublist.map _)

/-- An insertion changes the best match only where it is a longer match. -/
theorem best_insert (ht : t.Distinct) (hb : t.best d = some r)
    (hlen : ∀ e' ∈ t, e'.ref = r → t.exact e.pfx = none → e.pfx <+: d →
      e.pfx.length ≤ e'.pfx.length) :
    (t.insert e).best d = some r := by
  obtain ⟨e', he', hr, hcov, hmax⟩ := (best_eq_some ht).mp hb
  refine (best_eq_some (ht.insert e)).mpr
    ⟨e', mem_insert.mpr (.inl he'), hr, hcov, fun e'' he'' hcov'' => ?_⟩
  rcases mem_insert.mp he'' with h | ⟨rfl, hnew⟩
  · exact hmax e'' h hcov''
  · exact hlen e' he' hr hnew hcov''

/-- An erased prefix changes the best match only where it was the best match. -/
theorem best_erase (ht : t.Distinct) (hb : t.best d = some r)
    (hne : ∀ e ∈ t, e.ref = r → e.pfx ≠ k) : (t.erase k).best d = some r := by
  obtain ⟨e, he, hr, hcov, hmax⟩ := (best_eq_some ht).mp hb
  exact (best_eq_some (ht.erase k)).mpr ⟨e, mem_erase.mpr ⟨he, hne e he hr⟩, hr, hcov,
    fun e' he' => hmax e' (mem_erase.mp he').1⟩

theorem exact_insert : (t.insert e).exact k =
    if k = e.pfx ∧ t.exact k = none then some e.ref else t.exact k := by
  unfold insert
  by_cases hk : k = e.pfx
  · subst hk
    cases h : t.exact e.pfx with
    | some r => simp [h]
    | none => simp [exact]
  · rw [if_neg fun h : k = e.pfx ∧ t.exact k = none => hk h.1]
    cases (t.exact e.pfx).isSome with
    | true => rfl
    | false => simp [exact, Ne.symm hk]

theorem exact_erase {k' : List β} :
    (t.erase k').exact k = if k = k' then none else t.exact k := by
  split_ifs with hk
  · subst hk
    exact exact_eq_none.mpr fun e he => (mem_erase.mp he).2
  · unfold exact erase
    rw [List.find?_filter]
    congr 2
    funext e
    by_cases he : e.pfx = k
    · simp [he, hk]
    · simp [he]

end Table

variable {α : Type*}

/-- What a routing table means: the value of each prefix that has one. -/
abbrev PrefixMap (β α : Type*) := List β → Option α

namespace PrefixMap

/-- The value of the longest prefix of a string that has one. -/
def longest (m : PrefixMap β α) : List β → Option α
  | [] => m []
  | b :: d => (longest (fun p => m (b :: p)) d).or (m [])

variable {m : PrefixMap β α} {a : α} {d : List β}

omit [DecidableEq β] in
theorem longest_eq_none : m.longest d = none ↔ ∀ p, p <+: d → m p = none := by
  induction d generalizing m with
  | nil => simp [longest]
  | cons b d ih =>
    rw [longest, Option.or_eq_none_iff, ih]
    constructor
    · rintro ⟨hlong, hnil⟩ p hp
      rcases List.prefix_cons_iff.mp hp with rfl | ⟨q, rfl, hq⟩
      · exact hnil
      · exact hlong q hq
    · intro h
      exact ⟨fun q hq => h _ ((List.prefix_cons_inj b).mpr hq), h [] List.nil_prefix⟩

omit [DecidableEq β] in
theorem longest_eq_some : m.longest d = some a ↔
    ∃ p, p <+: d ∧ m p = some a ∧ ∀ q, q <+: d → p.length < q.length → m q = none := by
  induction d generalizing m with
  | nil =>
    constructor
    · intro h
      refine ⟨[], List.nil_prefix, h, fun q hq hlt => ?_⟩
      rw [List.prefix_nil.mp hq] at hlt
      exact absurd hlt (lt_irrefl _)
    · rintro ⟨p, hp, ha, -⟩
      rwa [List.prefix_nil.mp hp] at ha
  | cons b d ih =>
    rw [longest, Option.or_eq_some_iff, ih]
    constructor
    · rintro (⟨p, hp, ha, hmax⟩ | ⟨hnone, ha⟩)
      · refine ⟨b :: p, (List.prefix_cons_inj b).mpr hp, ha, fun q hq hlt => ?_⟩
        rcases List.prefix_cons_iff.mp hq with rfl | ⟨q', rfl, hq'⟩
        · exact absurd hlt (Nat.not_lt_zero _)
        · exact hmax q' hq' (Nat.lt_of_succ_lt_succ hlt)
      · refine ⟨[], List.nil_prefix, ha, fun q hq hlt => ?_⟩
        rcases List.prefix_cons_iff.mp hq with rfl | ⟨q', rfl, hq'⟩
        · exact absurd hlt (lt_irrefl _)
        · exact longest_eq_none.mp hnone q' hq'
    · rintro ⟨p, hp, ha, hmax⟩
      rcases List.prefix_cons_iff.mp hp with rfl | ⟨p', rfl, hp'⟩
      · refine .inr ⟨longest_eq_none.mpr fun q hq => ?_, ha⟩
        exact hmax _ ((List.prefix_cons_inj b).mpr hq) (Nat.succ_pos _)
      · exact .inl ⟨p', hp', ha, fun q hq hlt =>
          hmax _ ((List.prefix_cons_inj b).mpr hq) (Nat.succ_lt_succ hlt)⟩

omit [DecidableEq β] in
theorem longest_self (h : m d = some a) : m.longest d = some a := by
  refine longest_eq_some.mpr ⟨d, List.prefix_refl d, h, fun q hq hlt => ?_⟩
  exact absurd hq.length_le (Nat.not_le.mpr hlt)

end PrefixMap

namespace Table

variable {t : Table ρ β} {d : List β}

def values (t : Table ρ β) (v : ρ → Option α) : PrefixMap β α := fun p => (t.exact p).bind v

theorem best_bind (ht : t.Distinct) {v : ρ → Option α} (hv : ∀ e ∈ t, (v e.ref).isSome = true) :
    (t.best d).bind v = (t.values v).longest d := by
  cases hbest : t.best d with
  | none =>
    refine (PrefixMap.longest_eq_none.mpr fun p hp => ?_).symm
    have hexact : t.exact p = none :=
      exact_eq_none.mpr fun e he hpfx => best_eq_none.mp hbest e he (hpfx ▸ hp)
    simp [values, hexact]
  | some r =>
    obtain ⟨e, he, rfl, hcov, hmax⟩ := (best_eq_some ht).mp hbest
    obtain ⟨a, ha⟩ := Option.isSome_iff_exists.mp (hv e he)
    have hexact : t.exact e.pfx = some e.ref := (exact_eq_some ht).mpr ⟨e, he, rfl, rfl⟩
    rw [Option.bind_some, ha]
    refine (PrefixMap.longest_eq_some.mpr ⟨e.pfx, hcov, ?_, fun q hq hlt => ?_⟩).symm
    · simp [values, hexact, ha]
    · have hnone : t.exact q = none := by
        refine exact_eq_none.mpr fun e' he' hpfx => ?_
        subst hpfx
        exact absurd (hmax e' he' hq) (by omega)
      simp [values, hnone]

end Table

end Madcap.LongestPrefix
