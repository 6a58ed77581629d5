import Madcap.Foundation.Fallible
import Mathlib.Tactic

/-!
# Requests to an allocator

A state carries an allocator: how many requests have been made and which are granted. A
computation that stops at a refusal depends on the allocator through its own requests only,
so what it does when all of them are granted says when it returns at all.
-/

namespace Madcap

universe u v

/-- A state with an allocator, whose grants can be exchanged. -/
class Supply (σ : Type v) where
  grants : σ → ℕ → Bool
  requests : σ → ℕ
  regrant : (ℕ → Bool) → σ → σ
  grants_regrant : ∀ g s, grants (regrant g s) = g
  requests_regrant : ∀ g s, requests (regrant g s) = requests s
  regrant_regrant : ∀ g g' s, regrant g (regrant g' s) = regrant g s
  regrant_grants : ∀ s, regrant (grants s) s = s

namespace Supply

attribute [simp] grants_regrant requests_regrant regrant_regrant regrant_grants

instance {α σ : Type v} [Supply σ] : Supply (α × σ) where
  grants r := grants r.2
  requests r := requests r.2
  regrant g r := (r.1, regrant g r.2)
  grants_regrant g r := grants_regrant g r.2
  requests_regrant g r := requests_regrant g r.2
  regrant_regrant g g' r := by rw [regrant_regrant]
  regrant_grants r := by rw [regrant_grants]

end Supply

open Supply

/-- From `s` the computation returns `r` after `k` requests, all of them granted, and it does
the same under every allocator that grants these. -/
structure Asks {ε : Type u} {σ ρ : Type v} [Supply σ] [Supply ρ] (F : σ → Except ε ρ) (s : σ)
    (k : ℕ) (r : ρ) : Prop where
  run : F s = .ok r
  grants_eq : grants r = grants s
  requests_eq : requests r = requests s + k
  granted : ∀ i < k, grants s (requests s + i) = true
  replay : ∀ g : ℕ → Bool, (∀ i < k, g (requests s + i) = true) →
    F (regrant g s) = .ok (regrant g r)

namespace Asks

variable {ε : Type u} {σ ρ τ α : Type v} [Supply σ] [Supply ρ] [Supply τ] {F G : σ → Except ε ρ}
  {s : σ} {r r' : ρ} {t : τ} {k k' : ℕ}

theorem of_ok (hrun : F s = .ok r) (hg : grants r = grants s) (hr : requests r = requests s)
    (hreplay : ∀ g, F (regrant g s) = .ok (regrant g r)) : Asks F s 0 r :=
  ⟨hrun, hg, hr, fun _ h => absurd h (Nat.not_lt_zero _), fun g _ => hreplay g⟩

theorem congr (hG : Asks G s k r) (h : F s = G s)
    (hg : ∀ g, F (regrant g s) = G (regrant g s)) : Asks F s k r :=
  ⟨h.trans hG.run, hG.grants_eq, hG.requests_eq, hG.granted, fun g h => (hg g).trans (hG.replay g h)⟩

/-- Sequencing. The second part may look at the first state, but not at its allocator. -/
theorem bind {K : σ → ρ → Except ε τ} {n : ℕ} (hF : Asks F s k r) (hK : Asks (K s) r k' t)
    (hs : ∀ g, K (regrant g s) = K s) (hn : k + k' = n) : Asks (fun s => F s >>= K s) s n t := by
  subst hn
  refine ⟨?_, ?_, ?_, fun i hi => ?_, fun g hg => ?_⟩
  · exact bind_eq_ok.mpr ⟨r, hF.run, hK.run⟩
  · rw [hK.grants_eq, hF.grants_eq]
  · rw [hK.requests_eq, hF.requests_eq, Nat.add_assoc]
  · by_cases hlt : i < k
    · exact hF.granted i hlt
    · have hlast := hK.granted (i - k) (by omega)
      rw [hF.grants_eq, hF.requests_eq] at hlast
      rwa [show requests s + k + (i - k) = requests s + i by omega] at hlast
  · have hfirst := hF.replay g fun i hi => hg i (by omega)
    have hlast := hK.replay g fun i hi => by
      rw [hF.requests_eq, Nat.add_assoc]
      exact hg (k + i) (by omega)
    rw [← hs g] at hlast
    exact bind_eq_ok.mpr ⟨_, hfirst, hlast⟩

theorem andThen {K : ρ → Except ε τ} (hF : Asks F s 0 r) (hK : Asks K r k t) :
    Asks (fun s => F s >>= K) s k t :=
  hF.bind hK (fun _ => rfl) (Nat.zero_add k)

theorem finish {K : ρ → Except ε τ} (hF : Asks F s k r) (hK : Asks K r 0 t) :
    Asks (fun s => F s >>= K) s k t :=
  hF.bind hK (fun _ => rfl) (Nat.add_zero k)

theorem read {R : σ → Except ε α} {K : α → σ → Except ε τ} {a : α} (hR : R s = .ok a)
    (hg : ∀ g, R (regrant g s) = R s) (hK : Asks (K a) s k t) :
    Asks (fun s => R s >>= fun a => K a s) s k t := by
  refine ⟨?_, hK.grants_eq, hK.requests_eq, hK.granted, fun g h => ?_⟩
  · exact bind_eq_ok.mpr ⟨a, hR, hK.run⟩
  · exact bind_eq_ok.mpr ⟨a, (hg g).trans hR, hK.replay g h⟩

theorem pair {K : α × σ → Except ε τ} {a : α} (h : Asks (fun s => K (a, s)) s k t) :
    Asks K (a, s) k t :=
  ⟨h.run, h.grants_eq, h.requests_eq, h.granted, h.replay⟩

/-- A computation returns exactly when the requests it makes under a generous allocator are
granted, if every run of it asks for what it gets. -/
theorem exists_ok_iff (hall : Asks F (regrant (fun _ => true) s) k r)
    (hask : ∀ r, F s = .ok r → ∃ k, Asks F s k r) :
    (∃ r, F s = .ok r) ↔ ∀ i < k, grants s (requests s + i) = true := by
  constructor
  · rintro ⟨r', hr'⟩
    obtain ⟨k', h'⟩ := hask r' hr'
    have hsame : regrant (fun _ => true) r' = r :=
      Except.ok.inj ((h'.replay (fun _ => true) fun _ _ => rfl).symm.trans hall.run)
    have hcount := hall.requests_eq
    rw [← hsame, requests_regrant, requests_regrant, h'.requests_eq] at hcount
    obtain rfl : k' = k := Nat.add_left_cancel hcount
    exact h'.granted
  · intro h
    have hrun := hall.replay (grants s) (by rwa [requests_regrant])
    rw [regrant_regrant, regrant_grants] at hrun
    exact ⟨_, hrun⟩

end Asks

end Madcap
