import Mathlib.Analysis.SpecialFunctions.Log.Basic

/-!
This module contains floating point arithmetic up to its errors. The values of the numbers are reals,
infinities and NaNs have none. An operation is accurate if its result is the exact one up to a few units
in the last place of a binary64 number as long as nothing overflows.

`Near` says how far the value of a computed number is from the exact one, there is a rule for each
operation.
-/

structure Floating (F : Type*) where
  ofInt : Int → F
  half : F
  add : F → F → F
  sub : F → F → F
  div : F → F → F
  log : F → F
  exp : F → F
  floor : F → F
  toInt : F → Int

namespace Floating

noncomputable def roundoff : ℝ := 1 / 2 ^ 50

theorem roundoff_pos : 0 < roundoff := by
  unfold roundoff
  norm_num

def Rounds (result : Option ℝ) (exact : ℝ) : Prop :=
  ∃ r, result = some r ∧ |r - exact| ≤ roundoff * (1 + |exact|)

theorem rounds_self (exact : ℝ) : Rounds (some exact) exact := by
  refine ⟨exact, rfl, ?_⟩
  rw [sub_self, abs_zero]
  have := roundoff_pos
  positivity

variable {F : Type*}

structure Accurate (m : Floating F) (val : F → Option ℝ) : Prop where
  ofInt : ∀ n : Int, |n| ≤ 2 ^ 53 → val (m.ofInt n) = some (n : ℝ)
  half : val m.half = some (1 / 2)
  add : ∀ x y a b, val x = some a → val y = some b → |a + b| ≤ 2 ^ 64 →
    Rounds (val (m.add x y)) (a + b)
  sub : ∀ x y a b, val x = some a → val y = some b → |a - b| ≤ 2 ^ 64 →
    Rounds (val (m.sub x y)) (a - b)
  div : ∀ x y a b, val x = some a → val y = some b → b ≠ 0 → |a / b| ≤ 2 ^ 64 →
    Rounds (val (m.div x y)) (a / b)
  log : ∀ x a, val x = some a → 0 < a → Rounds (val (m.log x)) (Real.log a)
  exp : ∀ x a, val x = some a → Real.exp a ≤ 2 ^ 64 → Rounds (val (m.exp x)) (Real.exp a)
  floor : ∀ x a, val x = some a → |a| ≤ 2 ^ 64 → val (m.floor x) = some (⌊a⌋ : ℝ)
  toInt : ∀ x (n : Int), val x = some (n : ℝ) → -2 ^ 31 ≤ n → n < 2 ^ 31 → m.toInt x = n

def Near (val : F → Option ℝ) (x : F) (a e : ℝ) : Prop := ∃ b, val x = some b ∧ |b - a| ≤ e

variable {m : Floating F} {val : F → Option ℝ} {x y : F} {a b e f : ℝ}

theorem Near.mono (h : Near val x a e) (hle : e ≤ f) : Near val x a f := by
  have ⟨b, hb, herror⟩ := h
  exact ⟨b, hb, le_trans herror hle⟩

theorem val_ofInt (hm : Accurate m val) {n : Int} (hlo : 0 ≤ n) (hhi : n ≤ 2 ^ 31)
    : val (m.ofInt n) = some (n : ℝ) := by
  apply hm.ofInt
  rw [abs_of_nonneg hlo]
  omega

theorem near_self (h : val x = some a) : Near val x a 0 := by
  refine ⟨a, h, ?_⟩
  rw [sub_self, abs_zero]

theorem Rounds.near {c : ℝ} (h : Rounds (val x) c) (hc : |c - a| ≤ e)
    : Near val x a (e + roundoff * (1 + |a| + e)) := by
  have ⟨r, hr, herror⟩ := h
  refine ⟨r, hr, ?_⟩
  have hsize : |c| ≤ |a| + e := by
    have := abs_add_le (c - a) a
    rw [sub_add_cancel] at this
    linarith
  have hround : roundoff * (1 + |c|) ≤ roundoff * (1 + |a| + e) := by
    apply mul_le_mul_of_nonneg_left _ roundoff_pos.le
    linarith
  calc |r - a|
    _ = |(r - c) + (c - a)| := by rw [sub_add_sub_cancel]
    _ ≤ |r - c| + |c - a| := abs_add_le _ _
    _ ≤ e + roundoff * (1 + |a| + e) := by linarith

theorem Near.add (hm : Accurate m val) (hx : Near val x a e) (hy : Near val y b f)
    (hsize : |a + b| + e + f ≤ 2 ^ 64)
    : Near val (m.add x y) (a + b) (e + f + roundoff * (1 + |a + b| + (e + f))) := by
  have ⟨c, hc, hce⟩ := hx
  have ⟨d, hd, hdf⟩ := hy
  have herror : |(c + d) - (a + b)| ≤ e + f := by
    rw [add_sub_add_comm]
    have := abs_add_le (c - a) (d - b)
    linarith
  have hcd : |c + d| ≤ 2 ^ 64 := by
    have := abs_add_le ((c + d) - (a + b)) (a + b)
    rw [sub_add_cancel] at this
    linarith
  exact (hm.add x y c d hc hd hcd).near herror

theorem Near.sub (hm : Accurate m val) (hx : Near val x a e) (hy : Near val y b f)
    (hsize : |a - b| + e + f ≤ 2 ^ 64)
    : Near val (m.sub x y) (a - b) (e + f + roundoff * (1 + |a - b| + (e + f))) := by
  have ⟨c, hc, hce⟩ := hx
  have ⟨d, hd, hdf⟩ := hy
  have herror : |(c - d) - (a - b)| ≤ e + f := by
    rw [sub_sub_sub_comm]
    have := abs_sub (c - a) (d - b)
    linarith
  have hcd : |c - d| ≤ 2 ^ 64 := by
    have := abs_add_le ((c - d) - (a - b)) (a - b)
    rw [sub_add_cancel] at this
    linarith
  exact (hm.sub x y c d hc hd hcd).near herror

theorem Near.div (hm : Accurate m val) (hx : Near val x a e) (hy : val y = some b) (hb : 1 ≤ b)
    (hsize : |a / b| + e ≤ 2 ^ 64)
    : Near val (m.div x y) (a / b) (e + roundoff * (1 + |a / b| + e)) := by
  have ⟨c, hc, hce⟩ := hx
  have hpos : 0 < b := by linarith
  have herror : |c / b - a / b| ≤ e := by
    rw [← sub_div, abs_div, abs_of_pos hpos]
    have := div_le_self (abs_nonneg (c - a)) hb
    linarith
  have hcb : |c / b| ≤ 2 ^ 64 := by
    have := abs_add_le (c / b - a / b) (a / b)
    rw [sub_add_cancel] at this
    linarith
  exact (hm.div x y c b hc hy hpos.ne' hcb).near herror

theorem near_log (hm : Accurate m val) (hx : val x = some a) (ha : 0 < a)
    : Near val (m.log x) (Real.log a) (roundoff * (1 + |Real.log a|)) :=
  hm.log x a hx ha

theorem Near.exp (hm : Accurate m val) (hx : Near val x a e) (he : e ≤ 1)
    (hsize : Real.exp a * (1 + 2 * e) ≤ 2 ^ 64)
    : Near val (m.exp x) (Real.exp a)
        (Real.exp a * (2 * e) + roundoff * (1 + Real.exp a + Real.exp a * (2 * e))) := by
  have ⟨c, hc, hce⟩ := hx
  have hpos := Real.exp_pos a
  have hfactor : |Real.exp (c - a) - 1| ≤ 2 * e := by
    have := Real.abs_exp_sub_one_le (le_trans hce he)
    linarith
  have hexp : Real.exp c - Real.exp a = Real.exp a * (Real.exp (c - a) - 1) := by
    rw [mul_sub, ← Real.exp_add, add_sub_cancel, mul_one]
  have herror : |Real.exp c - Real.exp a| ≤ Real.exp a * (2 * e) := by
    rw [hexp, abs_mul, abs_of_pos hpos]
    exact mul_le_mul_of_nonneg_left hfactor hpos.le
  have hc' : Real.exp c ≤ 2 ^ 64 := by
    have := le_trans (le_abs_self _) herror
    linarith
  have hnear := (hm.exp x c hc hc').near herror
  rw [abs_of_pos hpos] at hnear
  exact hnear

theorem toInt_floor (hm : Accurate m val) (hx : Near val x a e) (hlo : 0 ≤ a - e) (hhi : a + e < 2 ^ 31)
    : ∃ b, |b - a| ≤ e ∧ m.toInt (m.floor x) = ⌊b⌋ := by
  have ⟨b, hb, herror⟩ := hx
  have ⟨hbelow, habove⟩ := abs_le.mp herror
  have hnonneg : 0 ≤ b := by linarith
  have hsize : |b| ≤ 2 ^ 64 := by
    rw [abs_of_nonneg hnonneg]
    linarith
  refine ⟨b, herror, ?_⟩
  apply hm.toInt _ _ (hm.floor x b hb hsize)
  . have := Int.floor_nonneg.mpr hnonneg
    omega
  . apply Int.floor_lt.mpr
    push_cast
    linarith

noncomputable def exact : Floating ℝ where
  ofInt n := n
  half := 1 / 2
  add x y := x + y
  sub x y := x - y
  div x y := x / y
  log := Real.log
  exp := Real.exp
  floor x := ⌊x⌋
  toInt x := ⌊x⌋

theorem accurate_exact : Accurate exact some := by
  constructor
  . intro n _
    rfl
  . rfl
  . intro x y a b hx hy _
    rw [Option.some.injEq] at hx hy
    rw [← hx, ← hy]
    exact rounds_self _
  . intro x y a b hx hy _
    rw [Option.some.injEq] at hx hy
    rw [← hx, ← hy]
    exact rounds_self _
  . intro x y a b hx hy _ _
    rw [Option.some.injEq] at hx hy
    rw [← hx, ← hy]
    exact rounds_self _
  . intro x a hx _
    rw [Option.some.injEq] at hx
    rw [← hx]
    exact rounds_self _
  . intro x a hx _
    rw [Option.some.injEq] at hx
    rw [← hx]
    exact rounds_self _
  . intro x a hx _
    rw [Option.some.injEq] at hx
    rw [← hx]
    rfl
  . intro x n hx _ _
    rw [Option.some.injEq] at hx
    rw [hx]
    exact Int.floor_intCast n

end Floating
