import Madcap.Foundation.Fallible
import Mathlib.Tactic

/-!
# Allocation heaps

A heap of objects of one type, addressed by numbers that are given out once.
Reading through an address that holds no object is a fault. The bound on the
allocated addresses is part of the structure, so a fresh address is unallocated
by construction.
-/

namespace Madcap

/-- Addresses of heap objects. A null pointer is `none : Option Ref`. -/
abbrev Ref := ℕ

/-- Objects of type `α` at the addresses below `next` that are still allocated. -/
structure Heap (α : Type*) where
  cells : ℕ → Option α
  next : ℕ
  fresh : ∀ r, next ≤ r → cells r = none

namespace Heap

variable {α : Type*}

def empty : Heap α := ⟨fun _ => none, 0, fun _ _ => rfl⟩

def read (h : Heap α) (r : ℕ) : Res α :=
  match h.cells r with
  | some a => .ok a
  | none => .error .badAccess

def readPtr (h : Heap α) : Option ℕ → Res α
  | some r => h.read r
  | none => .error .badAccess

def alloc (h : Heap α) (a : α) : Heap α where
  cells := Function.update h.cells h.next (some a)
  next := h.next + 1
  fresh := by
    intro r hr
    rw [Function.update_of_ne (by omega)]
    exact h.fresh r (by omega)

/-- Change of an object in place; nothing happens at an unallocated address. -/
def modify (h : Heap α) (r : ℕ) (f : α → α) : Heap α where
  cells := Function.update h.cells r ((h.cells r).map f)
  next := h.next
  fresh := by
    intro s hs
    by_cases hsr : s = r
    · subst hsr
      simp [h.fresh s hs]
    · rw [Function.update_of_ne hsr, h.fresh s hs]

def write (h : Heap α) (r : ℕ) (f : α → α) : Res (Heap α) :=
  match h.cells r with
  | some _ => .ok (h.modify r f)
  | none => .error .badAccess

def free (h : Heap α) (r : ℕ) : Heap α where
  cells := Function.update h.cells r none
  next := h.next
  fresh := by
    intro s hs
    by_cases hsr : s = r
    · subst hsr
      simp
    · rw [Function.update_of_ne hsr, h.fresh s hs]

variable {h : Heap α} {r s : ℕ} {a : α} {f : α → α}

theorem read_eq (hr : h.cells r = some a) : h.read r = .ok a := by
  simp [read, hr]

theorem read_eq_ok : h.read r = .ok a ↔ h.cells r = some a := by
  unfold read
  cases hr : h.cells r with
  | none => simp
  | some b => simp

theorem write_eq (hr : h.cells r = some a) : h.write r f = .ok (h.modify r f) := by
  simp [write, hr]

@[simp] theorem readPtr_some : h.readPtr (some r) = h.read r := rfl

@[simp] theorem empty_cells : (empty : Heap α).cells r = none := rfl

@[simp] theorem alloc_next : (h.alloc a).next = h.next + 1 := rfl

@[simp] theorem modify_next : (h.modify r f).next = h.next := rfl

@[simp] theorem free_next : (h.free r).next = h.next := rfl

theorem alloc_cells : (h.alloc a).cells s = if s = h.next then some a else h.cells s := by
  simp [alloc, Function.update_apply]

theorem modify_cells :
    (h.modify r f).cells s = if s = r then (h.cells s).map f else h.cells s := by
  simp only [modify, Function.update_apply]
  split_ifs with hs
  · rw [hs]
  · rfl

theorem free_cells : (h.free r).cells s = if s = r then none else h.cells s := by
  simp [free, Function.update_apply]

theorem lt_next (hr : h.cells r = some a) : r < h.next := by
  by_contra hn
  rw [h.fresh r (by omega)] at hr
  cases hr

theorem cells_next : h.cells h.next = none := h.fresh _ le_rfl

end Heap

end Madcap
