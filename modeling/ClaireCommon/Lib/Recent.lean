import Mathlib.Data.List.Basic

/-!
This module contains the newest elements of a growing list, as a buffer of a fixed capacity holds them.
-/

namespace Recent

variable {α : Type*} {capacity : Nat}

def recent (capacity : Nat) (as : List α) : List α := as.drop (as.length - capacity)

theorem recent_subset (capacity : Nat) (as : List α) : recent capacity as ⊆ as :=
  List.drop_subset _ _

theorem recent_of_length_le {as : List α} (h : as.length ≤ capacity) : recent capacity as = as := by
  unfold recent
  rw [Nat.sub_eq_zero_of_le h, List.drop_zero]

theorem length_recent (capacity : Nat) (as : List α)
    : (recent capacity as).length = min as.length capacity := by
  unfold recent
  rw [List.length_drop]
  omega

theorem recent_mono {capacity' : Nat} (h : capacity ≤ capacity') (as : List α)
    : recent capacity as ⊆ recent capacity' as := by
  have hdrop : recent capacity as = (recent capacity' as).drop
      (as.length - capacity - (as.length - capacity')) := by
    unfold recent
    rw [List.drop_drop]
    congr 1
    omega
  rw [hdrop]
  exact List.drop_subset _ _

theorem getLast?_recent (h : 0 < capacity) (as : List α) : (recent capacity as).getLast? = as.getLast? := by
  unfold recent
  rw [List.getLast?_drop]
  split
  . next hle =>
    have hnil : as = [] := List.length_eq_zero_iff.mp (by omega)
    rw [hnil]
    rfl
  . rfl

theorem recent_append (capacity : Nat) (as bs : List α)
    : recent capacity (as ++ bs) = recent (capacity - bs.length) as ++ recent capacity bs := by
  unfold recent
  rw [List.drop_append, List.length_append,
    show as.length + bs.length - capacity - as.length = bs.length - capacity by omega]
  congr 1
  by_cases h : bs.length ≤ capacity
  . congr 1
    omega
  . rw [List.drop_eq_nil_of_le (by omega), List.drop_eq_nil_of_le (by omega)]

theorem recent_push (capacity : Nat) (as : List α) (a : α)
    : (recent capacity as ++ [a]).drop ((recent capacity as).length + 1 - capacity) =
        recent capacity (as ++ [a]) := by
  rw [length_recent]
  unfold recent
  have hdrop : as.drop (as.length - capacity) ++ [a] = (as ++ [a]).drop (as.length - capacity) := by
    rw [List.drop_append_of_le_length (by omega)]
  rw [hdrop, List.drop_drop, List.length_append, List.length_singleton]
  congr 1
  omega

end Recent
