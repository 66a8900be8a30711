import Mathlib.Data.List.Basic

/-!
This module contains the lexicographic order of lists as the sign of a number, a proper prefix comes
first. The sign of a common part and the lengths give the sign of the lists.
-/

universe u

namespace Lexicographic

variable {α : Type u} {xs ys : List α}

theorem eq_iff_take
    : xs = ys ↔ xs.take (min xs.length ys.length) = ys.take (min xs.length ys.length)
        ∧ xs.length = ys.length := by
  constructor
  . intro h
    rw [h]
    exact ⟨rfl, rfl⟩
  . intro ⟨htake, hlength⟩
    rw [hlength, Nat.min_self, List.take_length] at htake
    rw [← htake, ← hlength, List.take_length]

variable [LT α]

theorem lt_iff_take
    : xs < ys ↔ xs.take (min xs.length ys.length) < ys.take (min xs.length ys.length)
        ∨ xs.take (min xs.length ys.length) = ys.take (min xs.length ys.length)
          ∧ xs.length < ys.length := by
  induction xs generalizing ys with
  | nil => cases ys <;> simp
  | cons a xs ih =>
    cases ys with
    | nil => simp
    | cons b ys =>
      rw [List.length_cons, List.length_cons, Nat.add_min_add_right, List.take_succ_cons,
        List.take_succ_cons, List.cons_lt_cons_iff, List.cons_lt_cons_iff, ih, List.cons.injEq,
        Nat.add_lt_add_iff_right]
      tauto

structure IsSign (r : Int) (xs ys : List α) : Prop where
  neg : r < 0 ↔ xs < ys
  zero : r = 0 ↔ xs = ys
  pos : 0 < r ↔ ys < xs

variable {r : Int}

theorem IsSign.nil : IsSign 0 ([] : List α) [] where
  neg := by simp
  zero := by simp
  pos := by simp

theorem IsSign.cons [Std.Irrefl (α := α) (· < ·)] (h : IsSign r xs ys) (a : α)
    : IsSign r (a :: xs) (a :: ys) where
  neg := by
    rw [h.neg]
    simp
  zero := by
    rw [h.zero]
    simp
  pos := by
    rw [h.pos]
    simp

theorem IsSign.of_ne {a b : α} (hne : a ≠ b) (hneg : r < 0 ↔ a < b) (hzero : r ≠ 0)
    (hpos : 0 < r ↔ b < a) : IsSign r (a :: xs) (b :: ys) where
  neg := by
    rw [hneg]
    simp [List.cons_lt_cons_iff, hne]
  zero := by simp [hne, hzero]
  pos := by
    rw [hpos]
    simp [List.cons_lt_cons_iff, Ne.symm hne]

theorem IsSign.of_take {s : Int}
    (h : IsSign r (xs.take (min xs.length ys.length)) (ys.take (min xs.length ys.length)))
    (hneg : s < 0 ↔ r < 0 ∨ r = 0 ∧ xs.length < ys.length)
    (hpos : 0 < s ↔ 0 < r ∨ r = 0 ∧ ys.length < xs.length) : IsSign s xs ys where
  neg := by rw [hneg, h.neg, h.zero, ← lt_iff_take]
  zero := by
    rw [eq_iff_take, ← h.zero]
    omega
  pos := by
    rw [hpos, h.pos, h.zero, @lt_iff_take _ ys xs, Nat.min_comm ys.length, @eq_comm _ (List.take _ ys)]

end Lexicographic
