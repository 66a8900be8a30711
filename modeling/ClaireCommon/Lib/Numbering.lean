import Mathlib.Data.List.Nodup

/-!
This module contains tables that number their keys in the order in which they were entered, starting
at 1, and the layout of a matrix whose rows and columns are numbered so.
-/

universe u

structure Numbered {α : Type u} (table : List (α × Int)) : Prop where
  keys_nodup : (table.map Prod.fst).Nodup
  numbers : ∀ (i : Nat) (h : i < table.length), table[i].2 = i + 1

namespace Numbered

variable {α : Type u} {table : List (α × Int)} {a b : α} {n m : Int}

theorem nil : Numbered ([] : List (α × Int)) where
  keys_nodup := List.nodup_nil
  numbers := by
    intro i h
    contradiction

theorem concat (h : Numbered table) (ha : a ∉ table.map Prod.fst)
    : Numbered (table ++ [(a, (table.length : Int) + 1)]) := by
  constructor
  . rw [List.map_append]
    apply List.Nodup.append h.keys_nodup
    . exact List.nodup_singleton a
    . intro k hk hk'
      rw [List.map_singleton, List.mem_singleton] at hk'
      rw [hk'] at hk
      exact ha hk
  . intro i hi
    rw [List.getElem_append]
    split
    . next hlt => exact h.numbers i hlt
    . next hge =>
      rw [List.length_append, List.length_singleton] at hi
      rw [List.getElem_singleton]
      omega

theorem range (h : Numbered table) (hmem : (a, n) ∈ table) : 1 ≤ n ∧ n ≤ table.length := by
  have ⟨i, hi, heq⟩ := List.getElem_of_mem hmem
  have hnumber := h.numbers i hi
  rw [heq] at hnumber
  dsimp only at hnumber
  omega

theorem key_unique (h : Numbered table) (ha : (a, n) ∈ table) (hb : (b, n) ∈ table) : a = b := by
  have ⟨i, hi, heqi⟩ := List.getElem_of_mem ha
  have ⟨j, hj, heqj⟩ := List.getElem_of_mem hb
  have hni := h.numbers i hi
  have hnj := h.numbers j hj
  rw [heqi] at hni
  rw [heqj] at hnj
  dsimp only at hni hnj
  have hij : i = j := by omega
  subst hij
  rw [heqi] at heqj
  exact congrArg Prod.fst heqj

theorem number_unique (h : Numbered table) (hn : (a, n) ∈ table) (hm : (a, m) ∈ table) : n = m := by
  have := List.inj_on_of_nodup_map h.keys_nodup hn hm rfl
  exact congrArg Prod.snd this

end Numbered

def cellIndex (width i j : Int) : Int := (i - 1) * width + j - 1

theorem cellIndex_range {width height i j : Int} (hi : 1 ≤ i) (hi' : i ≤ height) (hj : 1 ≤ j)
    (hj' : j ≤ width) : 0 ≤ cellIndex width i j ∧ cellIndex width i j < width * height := by
  unfold cellIndex
  have hlo : 0 ≤ (i - 1) * width := Int.mul_nonneg (by omega) (by omega)
  have hhi : (i - 1) * width ≤ (height - 1) * width := Int.mul_le_mul_of_nonneg_right (by omega) (by omega)
  have hlast : (height - 1) * width = width * height - width := by
    rw [Int.sub_mul, Int.one_mul, Int.mul_comm]
  omega

theorem cellIndex_injective {width i i' j j' : Int} (hj : 1 ≤ j) (hj' : j ≤ width) (hk : 1 ≤ j')
    (hk' : j' ≤ width) (h : cellIndex width i j = cellIndex width i' j') : i = i' ∧ j = j' := by
  unfold cellIndex at h
  have hrow : i = i' := by
    by_contra hne
    cases Int.lt_or_gt_of_ne hne with
    | inl hlt =>
      have hstep : (i - 1 + 1) * width ≤ (i' - 1) * width :=
        Int.mul_le_mul_of_nonneg_right (by omega) (by omega)
      rw [Int.add_mul, Int.one_mul] at hstep
      omega
    | inr hgt =>
      have hstep : (i' - 1 + 1) * width ≤ (i - 1) * width :=
        Int.mul_le_mul_of_nonneg_right (by omega) (by omega)
      rw [Int.add_mul, Int.one_mul] at hstep
      omega
  constructor
  . exact hrow
  . rw [hrow] at h
    omega
