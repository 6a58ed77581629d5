import Madcap.Foundation.Fallible

/-!
# Computations that leave a trace

A program works on a resource by operations that it performs one after another.
What it performed before it returned, or before it stopped at a fault, is its
trace. A resource that has to be given up is given up once, and last.
-/

namespace Madcap

universe u

/-- The operations a computation performs and what comes of it. -/
structure Traced (ω : Type*) (α : Type u) where
  trace : List ω
  result : Res α

namespace Traced

variable {ω : Type*} {α β : Type u}

/-- A fault ends the trace. -/
def bind (x : Traced ω α) (f : α → Traced ω β) : Traced ω β :=
  match x.result with
  | .error e => { trace := x.trace, result := .error e }
  | .ok a => { trace := x.trace ++ (f a).trace, result := (f a).result }

instance : Monad (Traced ω) where
  pure a := { trace := [], result := .ok a }
  bind := bind

def perform (op : ω) : Traced ω PUnit.{u + 1} := { trace := [op], result := .ok ⟨⟩ }

def lift (x : Res α) : Traced ω α := { trace := [], result := x }

@[simp] theorem trace_pure (a : α) : (pure a : Traced ω α).trace = [] := rfl

@[simp] theorem result_pure (a : α) : (pure a : Traced ω α).result = .ok a := rfl

@[simp] theorem trace_lift (x : Res α) : (lift x : Traced ω α).trace = [] := rfl

@[simp] theorem result_lift (x : Res α) : (lift x : Traced ω α).result = x := rfl

@[simp] theorem trace_perform_bind (op : ω) (f : PUnit → Traced ω β) :
    (perform op >>= f).trace = op :: (f ⟨⟩).trace := rfl

@[simp] theorem result_perform_bind (op : ω) (f : PUnit → Traced ω β) :
    (perform op >>= f).result = (f ⟨⟩).result := rfl

@[simp] theorem lift_ok_bind (a : α) (f : α → Traced ω β) : (lift (.ok a) >>= f) = f a := rfl

@[simp] theorem lift_error_bind (e : Fault) (f : α → Traced ω β) :
    (lift (.error e) >>= f) = lift (.error e) := rfl

@[simp] theorem pure_bind (a : α) (f : α → Traced ω β) : (pure a >>= f) = f a := rfl

variable {x : Traced ω α} {f : α → Traced ω β}

theorem trace_bind_ok {a : α} (h : x.result = .ok a) :
    (x >>= f).trace = x.trace ++ (f a).trace := by
  change (bind x f).trace = _
  unfold bind
  rw [h]

theorem result_bind (x : Traced ω α) (f : α → Traced ω β) :
    (x >>= f).result = x.result >>= fun a => (f a).result := by
  change (bind x f).result = _
  unfold bind
  cases x.result with
  | error e => rfl
  | ok a => rfl

theorem result_bind_ok {a : α} (h : x.result = .ok a) : (x >>= f).result = (f a).result := by
  rw [result_bind, h]
  rfl

theorem trace_bind_pure (x : Traced ω α) (g : α → β) :
    (x >>= fun a => pure (g a)).trace = x.trace := by
  cases h : x.result with
  | error e =>
    change (bind x _).trace = _
    unfold bind
    rw [h]
  | ok a => rw [trace_bind_ok h, trace_pure, List.append_nil]

/-- What holds of every operation holds of those of each part. -/
theorem forall_trace_bind {P : ω → Prop} {a : α} (h : x.result = .ok a) :
    (∀ op ∈ (x >>= f).trace, P op) ↔ (∀ op ∈ x.trace, P op) ∧ ∀ op ∈ (f a).trace, P op := by
  rw [trace_bind_ok h]
  exact List.forall_mem_append

theorem forall_trace_perform {P : ω → Prop} {op : ω} {f : PUnit → Traced ω β} :
    (∀ o ∈ (perform op >>= f).trace, P o) ↔ P op ∧ ∀ o ∈ (f ⟨⟩).trace, P o :=
  List.forall_mem_cons

end Traced

section

variable {ω : Type*} {consumes : ω → Prop} {op : ω} {ops before rest : List ω}

/-- The last operation consumes the resource, and no other does. -/
def ConsumedOnce (consumes : ω → Prop) (ops : List ω) : Prop :=
  ∃ before last, ops = before ++ [last] ∧ consumes last ∧ ∀ op ∈ before, ¬ consumes op

/-- Whatever happens to the resource before it is given up. -/
theorem consumedOnce_cons_of_not (h : ¬ consumes op) :
    ConsumedOnce consumes (op :: ops) ↔ ConsumedOnce consumes ops := by
  constructor
  · rintro ⟨before, last, heq, hlast, hbefore⟩
    cases before with
    | nil =>
      obtain ⟨rfl, -⟩ := List.cons.inj heq
      exact absurd hlast h
    | cons b before =>
      obtain ⟨-, rfl⟩ := List.cons.inj heq
      exact ⟨before, last, rfl, hlast, fun o ho => hbefore o (List.mem_cons_of_mem b ho)⟩
  · rintro ⟨before, last, rfl, hlast, hbefore⟩
    refine ⟨op :: before, last, rfl, hlast, fun o ho => ?_⟩
    rcases List.mem_cons.mp ho with rfl | ho
    · exact h
    · exact hbefore o ho

/-- Nothing may happen to it afterwards. -/
theorem consumedOnce_cons_of (h : consumes op) :
    ConsumedOnce consumes (op :: ops) ↔ ops = [] := by
  constructor
  · rintro ⟨before, last, heq, -, hbefore⟩
    cases before with
    | nil => exact (List.cons.inj heq).2
    | cons b before =>
      obtain ⟨rfl, -⟩ := List.cons.inj heq
      exact absurd h (hbefore op List.mem_cons_self)
  · rintro rfl
    exact ⟨[], op, rfl, h, fun o ho => absurd ho List.not_mem_nil⟩

theorem consumedOnce_append_of_not (h : ∀ op ∈ before, ¬ consumes op) :
    ConsumedOnce consumes (before ++ rest) ↔ ConsumedOnce consumes rest := by
  induction before with
  | nil => exact Iff.rfl
  | cons op before ih =>
    rw [List.cons_append, consumedOnce_cons_of_not (h op List.mem_cons_self)]
    exact ih fun o ho => h o (List.mem_cons_of_mem op ho)

theorem not_consumedOnce_of_not (h : ∀ op ∈ ops, ¬ consumes op) : ¬ ConsumedOnce consumes ops := by
  rintro ⟨before, last, rfl, hlast, -⟩
  exact h last (by simp) hlast

end

namespace Traced

variable {ω : Type*} {α β : Type u} {consumes : ω → Prop} {Q : β → Prop} {op : ω}

/-- The computation returns a value of `Q`, and it gives the resource up once, last. -/
structure GivesUp (consumes : ω → Prop) (Q : α → Prop) (t : Traced ω α) : Prop where
  returns : ∃ a, t.result = .ok a ∧ Q a
  once : ConsumedOnce consumes t.trace

theorem GivesUp.mono {Q' : β → Prop} {t : Traced ω β} (h : GivesUp consumes Q t)
    (hQ : ∀ b, Q b → Q' b) : GivesUp consumes Q' t := by
  obtain ⟨⟨b, hb, hb'⟩, honce⟩ := h
  exact ⟨⟨b, hb, hQ b hb'⟩, honce⟩

end Traced

end Madcap
