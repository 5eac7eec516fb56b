import Mathlib.Data.List.Basic
import Mathlib.Data.List.Perm.Basic
/-!
# Removal by swap and pop

An element of a vector is removed by moving the last one to its place and
dropping the last place. The elements before it stay where they are, and the
rest is kept up to order.
-/
namespace Lib

variable {α : Type}

def swapPop (l : List α) (i : Nat) : List α :=
  match l.getLast? with
  | some x => (l.set i x).dropLast
  | none => l

theorem swapPop_append (l : List α) (x : α) {i : Nat} (h : i < l.length) : swapPop (l ++ [x]) i = l.set i x := by
  simp [swapPop, h]

theorem swapPop_last (l : List α) (x : α) : swapPop (l ++ [x]) l.length = l := by
  simp [swapPop]

/-- A non-empty list, split for either case. -/
theorem exists_append {l : List α} {i : Nat} (h : i < l.length) :
    ∃ init x, l = init ++ [x] ∧ (i < init.length ∨ i = init.length) := by
  have hne : l ≠ [] := List.ne_nil_of_length_pos (by omega)
  refine ⟨l.dropLast, l.getLast hne, (List.dropLast_append_getLast hne).symm, ?_⟩
  rw [List.length_dropLast]
  omega

theorem swapPop_length {l : List α} {i : Nat} (h : i < l.length) : (swapPop l i).length + 1 = l.length := by
  obtain ⟨init, x, rfl, hlt | rfl⟩ := exists_append h
  · rw [swapPop_append init x hlt]; simp
  · rw [swapPop_last]; simp

/-- Only the one element is gone. -/
theorem swapPop_perm {l : List α} {i : Nat} (h : i < l.length) : (l[i] :: swapPop l i).Perm l := by
  obtain ⟨init, x, rfl, hlt | rfl⟩ := exists_append h
  · rw [swapPop_append init x hlt, List.getElem_append_left hlt, List.set_eq_take_append_cons_drop, if_pos hlt]
    have hsplit : init = init.take i ++ init[i] :: init.drop (i + 1) := by
      rw [List.getElem_cons_drop, List.take_append_drop]
    have hend : init ++ [x] = init.take i ++ init[i] :: (init.drop (i + 1) ++ [x]) := by
      rw [← List.cons_append, ← List.append_assoc, ← hsplit]
    rw [hend]
    apply List.perm_middle.symm.trans
    apply List.Perm.append_left
    exact (List.perm_append_singleton x _).symm.cons _
  · rw [swapPop_last, List.getElem_concat_length rfl]
    exact (List.perm_append_singleton x init).symm

theorem swapPop_take {l : List α} {i : Nat} (h : i < l.length) : (swapPop l i).take i = l.take i := by
  obtain ⟨init, x, rfl, hlt | rfl⟩ := exists_append h
  · rw [swapPop_append init x hlt, List.take_set_of_le (Nat.le_refl i), List.take_append_of_le_length (by omega)]
  · rw [swapPop_last, List.take_append_of_le_length (Nat.le_refl _)]

end Lib
