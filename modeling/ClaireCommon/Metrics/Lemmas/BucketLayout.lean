import ClaireCommon.Metrics.Lemmas.FactoryGet

/-!
This module proves what the ranges are that `InitializeBucketRanges` computes if its arithmetic is
exact: they increase from the minimum to the maximum.
-/

namespace Claire
namespace Histogram

open Floating

noncomputable def roundedNext (current maximum : Int) (remaining : Nat) : Int :=
  ⌊exactNext current maximum remaining + 0.5⌋

theorem nextRange_exact {current maximum : Int} {remaining : Nat}
    : nextRange exact (exact.log (exact.ofInt maximum)) current remaining
        = if roundedNext current maximum remaining > current then
            roundedNext current maximum remaining
          else
            int32 (current + 1) := by
  have hfloor (x : ℝ) : exact.toInt (exact.floor x) = ⌊x⌋ := Int.floor_intCast ⌊x⌋
  have hhalf : (0.5 : ℝ) = 1 / 2 := by norm_num
  unfold nextRange roundedNext
  dsimp only
  rw [hfloor, hhalf]
  rfl

theorem roundedNext_range {current maximum : Int} {remaining : Nat}
    (hcurrent : 1 ≤ current ∧ current ≤ intMax) (hmaximum : 1 ≤ maximum ∧ maximum ≤ intMax)
    (hremaining : 1 ≤ remaining)
    : 0 ≤ roundedNext current maximum remaining ∧ roundedNext current maximum remaining ≤ intMax := by
  have ⟨hpos, hle⟩ := exactNext_range hcurrent hmaximum hremaining
  unfold roundedNext
  constructor
  . apply Int.floor_nonneg.mpr
    linarith
  . have hlt : ⌊exactNext current maximum remaining + 0.5⌋ < 2 ^ 31 := by
      apply Int.floor_lt.mpr
      push_cast
      linarith
    unfold intMax
    omega

structure Computes (maximum : Int) (ranges : BucketRanges) (j : Nat) : Prop where
  divides : ranges.bucketCount - (j + 1) ≠ 0
  next_ge : -2 ^ 31 ≤ roundedNext (ranges.range j) maximum (ranges.bucketCount - (j + 1))
  next_le : roundedNext (ranges.range j) maximum (ranges.bucketCount - (j + 1)) ≤ intMax
  increment_le : ranges.range j + 1 ≤ intMax
  range_eq : ranges.range (j + 1) =
    if roundedNext (ranges.range j) maximum (ranges.bucketCount - (j + 1)) > ranges.range j then
      roundedNext (ranges.range j) maximum (ranges.bucketCount - (j + 1))
    else
      ranges.range j + 1

theorem initializeBucketRanges_increasing {minimum maximum : Int} {bucketCount : Nat}
    (hminimum : 1 ≤ minimum) (hlt : minimum < maximum) (hmaximum : maximum ≤ intMax - 1)
    (hthree : 3 ≤ bucketCount) (hroom : bucketCount ≤ maximum - minimum + 2)
    : ∃ initial ranges, BucketRanges.create (bucketCount + 1) = .ok initial ∧
        initializeBucketRanges exact minimum maximum initial = .ok ranges ∧
        ranges.bucketCount = bucketCount ∧
        ranges.range 0 = 0 ∧
        ranges.range 1 = minimum ∧
        (∀ j < bucketCount, ranges.range j < ranges.range (j + 1)) ∧
        ranges.range (bucketCount - 1) = maximum ∧
        ranges.range bucketCount = intMax ∧
        ∀ j, 1 ≤ j → j + 1 < bucketCount → Computes maximum ranges j := by
  have hmax : 1 ≤ maximum ∧ maximum < intMax := by omega
  have hmax' : 1 ≤ maximum ∧ maximum ≤ maximum := by omega
  have ⟨initial, hinitial⟩ := @BucketRanges.exists_create (bucketCount + 1) (by omega)
  have ⟨_, hcount, hfirst⟩ := BucketRanges.create_eq_ok hinitial
  rw [Nat.add_sub_cancel] at hcount
  subst hcount
  have ⟨ranges, hranges⟩ := exists_initializeBucketRanges accurate_exact hminimum hmax' hmax.2
    (r := initial) (by omega) (by omega)
  have hvalid := valid_of_room accurate_exact hranges (by omega) hfirst hmax' hmax.2 (by omega)
  have ⟨_, hcount, hzero, hone, hnext, hlast⟩ := initializeBucketRanges_spec hranges (by omega) hfirst
  have hrange {j : Nat} (hj : 1 ≤ j) (hlt : j < initial.bucketCount) :=
    range_room accurate_exact hminimum hmax' hmax.2 (by omega) hone hnext hj hlt
  have hincreasing := hvalid.increasing
  rw [hcount] at hincreasing
  refine ⟨initial, ranges, hinitial, hranges, hcount, hzero, hone, hincreasing, ?_, hlast, ?_⟩
  . -- The last step has nothing left to divide.
    have ⟨hlo, hhi⟩ := hrange (j := initial.bucketCount - 2) (by omega) (by omega)
    have ⟨_, hle⟩ := hrange (j := initial.bucketCount - 1) (by omega) (by omega)
    have hstep := hnext (initial.bucketCount - 2) (by omega) (by omega)
    have hindex : initial.bucketCount - 2 + 1 = initial.bucketCount - 1 := by omega
    have hremaining : initial.bucketCount - (initial.bucketCount - 2 + 1) = 1 := by omega
    have hge := @nextRange_one ℝ exact some accurate_exact (ranges.range (initial.bucketCount - 2))
      maximum ⟨by omega, by omega⟩ ⟨by omega, by omega⟩ (by omega)
    rw [hremaining, hindex] at hstep
    rw [← hstep] at hge
    omega
  . intro j hj hlt
    have ⟨hlo, hhi⟩ := hrange hj (by omega)
    have ⟨hge, hle⟩ := @roundedNext_range (ranges.range j) maximum (initial.bucketCount - (j + 1))
      ⟨by omega, by omega⟩ ⟨by omega, by omega⟩ (by omega)
    have hstep := hnext j hj hlt
    rw [nextRange_exact, int32_of_range (by omega) (by unfold intMax at *; omega)] at hstep
    rw [← hcount] at hstep hge hle
    exact ⟨by omega, by omega, hle, by omega, hstep⟩

theorem initializeBucketRanges_increasing_five
    : ∃ initial ranges, BucketRanges.create (5 + 1) = .ok initial ∧
        initializeBucketRanges exact 1 64 initial = .ok ranges ∧
        ranges.bucketCount = 5 ∧
        ranges.range 0 = 0 ∧
        ranges.range 1 = 1 ∧
        (∀ j < 5, ranges.range j < ranges.range (j + 1)) ∧
        ranges.range (5 - 1) = 64 ∧
        ranges.range 5 = intMax ∧
        ∀ j, 1 ≤ j → j + 1 < 5 → Computes 64 ranges j :=
  initializeBucketRanges_increasing (by decide) (by decide) (by decide) (by decide) (by decide)

end Histogram
end Claire
