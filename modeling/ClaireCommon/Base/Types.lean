import Mathlib.Algebra.GroupWithZero.Nat
import Mathlib.Algebra.Ring.Int.Defs

/-!
This module contains the fixed width integer types of the code base: values are unbounded integers,
arithmetic that can leave the width wraps around explicitly.
-/

namespace Claire

def int64 (x : Int) : Int := x.bmod (2 ^ 64)

def int32 (x : Int) : Int := x.bmod (2 ^ 32)

def sizeT (x : Int) : Int := x % 2 ^ 64

def int64Max : Int := 2 ^ 63 - 1

def intMax : Int := 2 ^ 31 - 1

theorem int64_of_range {x : Int} (hlo : -2 ^ 63 ≤ x) (hhi : x < 2 ^ 63) : int64 x = x := by
  unfold int64
  apply Int.bmod_eq_of_le <;> omega

theorem int32_of_range {x : Int} (hlo : -2 ^ 31 ≤ x) (hhi : x < 2 ^ 31) : int32 x = x := by
  unfold int32
  apply Int.bmod_eq_of_le <;> omega

theorem int64_range (x : Int) : -2 ^ 63 ≤ int64 x ∧ int64 x < 2 ^ 63 := by
  unfold int64
  have := @Int.le_bmod x (2 ^ 64) (by decide)
  have := @Int.bmod_lt x (2 ^ 64) (by decide)
  omega

theorem int32_range (x : Int) : -2 ^ 31 ≤ int32 x ∧ int32 x < 2 ^ 31 := by
  unfold int32
  have := @Int.le_bmod x (2 ^ 32) (by decide)
  have := @Int.bmod_lt x (2 ^ 32) (by decide)
  omega

theorem int32_natCast_le (n : Nat) : int32 n ≤ n := by
  unfold int32
  rw [Int.bmod_def]
  omega

@[simp]
theorem int64_emod (x : Int) : int64 (x % 2 ^ 64) = int64 x :=
  Int.emod_bmod x (2 ^ 64)

@[simp]
theorem int64_int64_add (x y : Int) : int64 (int64 x + y) = int64 (x + y) := by
  simp [int64]

@[simp]
theorem int32_int32_add (x y : Int) : int32 (int32 x + y) = int32 (x + y) := by
  simp [int32]

@[simp]
theorem int32_add_int32 (x y : Int) : int32 (x + int32 y) = int32 (x + y) := by
  simp [int32]

end Claire
