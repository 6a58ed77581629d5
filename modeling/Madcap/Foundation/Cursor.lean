import Mathlib.Data.List.Basic

/-!
# Cursors over lists of lists

A position in a list of lists is an index and a position in the list at that index. It
stands for the elements that follow it.
-/

namespace Madcap.Cursor

variable {α : Type*} {ls : List (List α)} {l : List α} {i pos : ℕ} {a : α}

def remaining (ls : List (List α)) (i pos : ℕ) : List α :=
  match ls.drop i with
  | [] => []
  | l :: ls => l.drop pos ++ ls.flatten

theorem remaining_start (ls : List (List α)) : remaining ls 0 0 = ls.flatten := by
  cases ls <;> rfl

theorem remaining_end (h : ls[i]? = none) : remaining ls i pos = [] := by
  unfold remaining
  rw [List.drop_of_length_le (List.getElem?_eq_none_iff.mp h)]

theorem remaining_eq (h : ls[i]? = some l) :
    remaining ls i pos = l.drop pos ++ remaining ls (i + 1) 0 := by
  obtain ⟨hi, rfl⟩ := List.getElem?_eq_some_iff.mp h
  unfold remaining
  rw [List.drop_eq_getElem_cons hi]
  cases ls.drop (i + 1) <;> rfl

theorem remaining_next (h : ls[i]? = some l) (hpos : l[pos]? = none) :
    remaining ls i pos = remaining ls (i + 1) 0 := by
  rw [remaining_eq h, List.drop_of_length_le (List.getElem?_eq_none_iff.mp hpos), List.nil_append]

theorem remaining_cons (h : ls[i]? = some l) (hpos : l[pos]? = some a) :
    remaining ls i pos = a :: remaining ls i (pos + 1) := by
  obtain ⟨hlt, rfl⟩ := List.getElem?_eq_some_iff.mp hpos
  rw [remaining_eq h, remaining_eq h, List.drop_eq_getElem_cons hlt, List.cons_append]

end Madcap.Cursor
