import Mathlib.Logic.Basic

/-!
# Fallible computations

A computation over explicit memory either returns or stops at a fault. The
predicate `Ensures` is the usual rule for such programs: a returned value
satisfies the postcondition and a fault is one of the allowed faults. Bounded
loops report exhausted fuel as a fault of its own, so an `Ensures` statement
that forbids it is a termination statement.
-/

namespace Madcap

/-- Why a computation stopped: an access outside allocated memory, a bounded
loop that ran out of steps, or an assertion of the code itself. -/
inductive Fault where
  | badAccess
  | outOfFuel
  | bug
  deriving DecidableEq, Repr

abbrev Res := Except Fault

section

universe u v

variable {ε : Type u} {α β : Type v}

/-- Every returned value satisfies `Q`, and every fault satisfies `E`. -/
def Ensures (E : ε → Prop) (x : Except ε α) (Q : α → Prop) : Prop :=
  match x with
  | .ok a => Q a
  | .error e => E e

variable {E : ε → Prop} {Q Q' : α → Prop} {x : Except ε α}

@[simp] theorem ensures_ok {a : α} : Ensures E (.ok a) Q ↔ Q a := Iff.rfl

@[simp] theorem ensures_error {e : ε} : Ensures E (.error e) Q ↔ E e := Iff.rfl

@[simp] theorem ensures_pure {a : α} : Ensures E (pure a) Q ↔ Q a := Iff.rfl

@[simp] theorem ensures_throw {e : ε} : Ensures E (throw e) Q ↔ E e := Iff.rfl

/-- Sequencing: the continuation is checked at every value the first part returns. -/
theorem ensures_bind {f : α → Except ε β} {P : β → Prop} :
    Ensures E (x >>= f) P ↔ Ensures E x fun a => Ensures E (f a) P := by
  cases x <;> rfl

theorem Ensures.bind {f : α → Except ε β} {P : β → Prop} (hx : Ensures E x Q)
    (hf : ∀ a, Q a → Ensures E (f a) P) : Ensures E (x >>= f) P := by
  cases x with
  | error e => exact hx
  | ok a => exact hf a hx

theorem Ensures.mono (hx : Ensures E x Q) (h : ∀ a, Q a → Q' a) : Ensures E x Q' := by
  cases x with
  | error e => exact hx
  | ok a => exact h a hx

theorem Ensures.weaken {E' : ε → Prop} (hx : Ensures E x Q) (h : ∀ e, E e → E' e) :
    Ensures E' x Q := by
  cases x with
  | error e => exact h e hx
  | ok a => exact hx

theorem Ensures.of_eq_ok (hx : Ensures E x Q) {a : α} (h : x = .ok a) : Q a := by
  subst h
  exact hx

/-- When no fault is allowed, the computation returns. -/
theorem Ensures.exists_ok (hx : Ensures E x Q) (hE : ∀ e, ¬ E e) : ∃ a, x = .ok a ∧ Q a := by
  cases x with
  | error e => exact absurd hx (hE e)
  | ok a => exact ⟨a, rfl, hx⟩

theorem ok_pair_inj {γ : Type v} {b b' : β} {c c' : γ}
    (h : (Except.ok (b, c) : Except ε (β × γ)) = .ok (b', c')) : b = b' ∧ c = c' :=
  Prod.mk.inj (Except.ok.inj h)

theorem ok_triple_inj {γ δ : Type v} {b b' : β} {c c' : γ} {d d' : δ}
    (h : (Except.ok (b, c, d) : Except ε (β × γ × δ)) = .ok (b', c', d')) :
    b = b' ∧ c = c' ∧ d = d' := by
  obtain ⟨hb, hrest⟩ := ok_pair_inj h
  exact ⟨hb, Prod.mk.inj hrest⟩

theorem bind_eq_ok {f : α → Except ε β} {b : β} :
    x >>= f = .ok b ↔ ∃ a, x = .ok a ∧ f a = .ok b := by
  cases x with
  | error e => simp [bind, Except.bind]
  | ok a => simp [bind, Except.bind]

end

end Madcap
