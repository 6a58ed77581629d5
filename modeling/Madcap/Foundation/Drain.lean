import Madcap.Foundation.Fallible
import Mathlib.Data.List.Basic

/-!
# Draining a resumable source

A source hands out one item with each call and remembers in its state how far it has
come. It is drained by calls until one of them hands out nothing.
-/

namespace Madcap

section

variable {σ α M : Type}

/-- The items of a source, within a number of calls. -/
def drain (call : σ → Res (Option M × σ)) : ℕ → σ → Res (List M)
  | 0, _ => throw .outOfFuel
  | calls + 1, s => do
    let (item, s) ← call s
    match item with
    | none => return []
    | some m => do
      let ms ← drain call calls s
      return m :: ms

/-- Every element of a list in turn, until one of them faults. -/
def sendEach (send : α → Res M) : List α → Res (List M)
  | [] => return []
  | a :: as => do
    let m ← send a
    let ms ← sendEach send as
    return m :: ms

/-- One call of a source that has `rest` left: it sends the first element. -/
def CallTakes (call : σ → Res (Option M × σ)) (rest : σ → List α) (send : α → Res M) (s : σ) :
    Prop :=
  match rest s with
  | [] => ∃ s', call s = .ok (none, s')
  | a :: as => ∃ s', rest s' = as ∧ call s = send a >>= fun m => .ok (some m, s')

variable {call : σ → Res (Option M × σ)} {rest : σ → List α} {send : α → Res M}

/-- When each call sends the first of what is left, the calls send everything in order. -/
theorem drain_eq (hcall : ∀ s, CallTakes call rest send s) (calls : ℕ) (s : σ)
    (hcalls : (rest s).length < calls) : drain call calls s = sendEach send (rest s) := by
  induction calls generalizing s with
  | zero => omega
  | succ calls ih =>
    have htakes := hcall s
    unfold CallTakes at htakes
    unfold drain
    cases hrest : rest s with
    | nil =>
      rw [hrest] at htakes
      obtain ⟨s', hs'⟩ := htakes
      rw [hs']
      rfl
    | cons a as =>
      rw [hrest] at htakes hcalls
      obtain ⟨s', hs', hsend⟩ := htakes
      rw [hsend, sendEach]
      cases hm : send a with
      | error e => rfl
      | ok m =>
        have hrun := ih s' (by rw [hs']; rw [List.length_cons] at hcalls; omega)
        rw [hs'] at hrun
        change (do
          let ms ← drain call calls s'
          return m :: ms) = _
        rw [hrun]
        rfl

theorem sendEach_eq_ok {as : List α} {ms : List M} :
    sendEach send as = .ok ms ↔ List.Forall₂ (fun a m => send a = .ok m) as ms := by
  induction as generalizing ms with
  | nil =>
    constructor
    · intro h
      obtain rfl := Except.ok.inj h
      exact .nil
    · intro h
      cases h
      rfl
  | cons a as ih =>
    rw [sendEach]
    constructor
    · intro h
      obtain ⟨m, hm, h⟩ := bind_eq_ok.mp h
      obtain ⟨ms', hms, h⟩ := bind_eq_ok.mp h
      obtain rfl := Except.ok.inj h
      exact .cons hm (ih.mp hms)
    · intro h
      cases h with
      | cons hm hms =>
        rw [hm]
        change (sendEach send as >>= fun ms => .ok (_ :: ms)) = _
        rw [ih.mpr hms]
        rfl

theorem sendEach_ok_iff {as : List α} :
    (∃ ms, sendEach send as = .ok ms) ↔ ∀ a ∈ as, ∃ m, send a = .ok m := by
  constructor
  · rintro ⟨ms, hms⟩ a ha
    have hall := sendEach_eq_ok.mp hms
    induction hall with
    | nil => cases ha
    | cons hm hrest ih =>
      rcases List.mem_cons.mp ha with rfl | ha
      · exact ⟨_, hm⟩
      · exact ih (sendEach_eq_ok.mpr hrest) ha
  · intro h
    induction as with
    | nil => exact ⟨[], rfl⟩
    | cons a as ih =>
      obtain ⟨m, hm⟩ := h a List.mem_cons_self
      obtain ⟨ms, hms⟩ := ih fun b hb => h b (List.mem_cons_of_mem a hb)
      exact ⟨m :: ms, sendEach_eq_ok.mpr (.cons hm (sendEach_eq_ok.mp hms))⟩

end

end Madcap
