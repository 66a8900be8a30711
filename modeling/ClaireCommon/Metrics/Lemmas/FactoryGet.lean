import Mathlib.Analysis.Complex.ExponentialBounds
import Mathlib.Analysis.Convex.SpecificFunctions.Basic
import ClaireCommon.Lib.Except
import ClaireCommon.Metrics.Impl.FactoryGet
import ClaireCommon.Metrics.Lemmas.Histogram

/-!
This module contains which arguments `FactoryGet` makes a histogram of that counts every sample.
-/

namespace Claire

namespace BucketRanges

theorem length_ranges (r : BucketRanges) : r.ranges.length = r.bucketCount + 1 := by
  have := r.size_pos
  unfold bucketCount
  omega

theorem create_eq_ok {numRanges : Nat} {r : BucketRanges} (h : create numRanges = .ok r)
    : 0 < numRanges ∧ r.bucketCount = numRanges - 1 ∧ r.range 0 = 0 := by
  unfold create at h
  split at h
  . next hpos =>
    injection h with h
    rw [← h]
    simp [hpos, bucketCount, range]
  . contradiction

theorem exists_create {numRanges : Nat} (h : 0 < numRanges)
    : ∃ r, create numRanges = .ok r := by
  unfold create
  rw [dif_pos h]
  exact ⟨_, rfl⟩

theorem setRange_spec {r r' : BucketRanges} {i : Nat} {value : Int} (h : r.setRange i value = .ok r')
    : i ≤ r.bucketCount ∧ 0 < value ∧ r'.bucketCount = r.bucketCount ∧ r'.range i = value
        ∧ ∀ j, j ≠ i → r'.range j = r.range j := by
  unfold setRange at h
  have ⟨_, hindex, h⟩ := Except.bind_eq_ok.mp h
  have ⟨_, hvalue, h⟩ := Except.bind_eq_ok.mp h
  injection h with h
  have hindex := of_decide_eq_true (check_eq_ok hindex)
  have hvalue := of_decide_eq_true (check_eq_ok hvalue)
  rw [← h]
  have hlength := length_ranges r
  refine ⟨by omega, hvalue, ?_, ?_, ?_⟩
  . simp [bucketCount]
  . simp [range, hindex]
  . intro j hne
    simp [range, Ne.symm hne]

theorem exists_setRange {r : BucketRanges} {i : Nat} {value : Int} (hi : i ≤ r.bucketCount)
    (hvalue : 0 < value) : ∃ r', r.setRange i value = .ok r' := by
  have hlength := length_ranges r
  have hi' : i < r.ranges.length := by omega
  unfold setRange
  simp [hi', hvalue, check, bind, Except.bind, pure, Except.pure]

end BucketRanges

namespace Histogram

open Floating

-- The `remaining`th root of the way from `current` to `maximum`, on a logarithmic scale
noncomputable def exactNext (current maximum : Int) (remaining : Nat) : ℝ :=
  Real.exp (Real.log current + (Real.log maximum - Real.log current) / remaining)

theorem log_range {n : Int} (hlo : 1 ≤ n) (hhi : n ≤ intMax) : 0 ≤ Real.log n ∧ Real.log n ≤ 22 := by
  have hone : (1 : ℝ) ≤ n := by exact_mod_cast hlo
  have hmax : (n : ℝ) ≤ 2 ^ 31 := by
    unfold intMax at hhi
    have : n ≤ 2 ^ 31 := by omega
    exact_mod_cast this
  refine ⟨Real.log_nonneg hone, ?_⟩
  have hlog := Real.log_le_log (by linarith) hmax
  rw [Real.log_pow] at hlog
  have := Real.log_two_lt_d9
  push_cast at hlog
  linarith

theorem log_next_range {current maximum : Int} {remaining : Nat}
    (hcurrent : 1 ≤ current ∧ current ≤ intMax) (hmaximum : 1 ≤ maximum ∧ maximum ≤ intMax)
    (hremaining : 1 ≤ remaining)
    : |Real.log current + (Real.log maximum - Real.log current) / remaining| ≤ 44
        ∧ |(Real.log maximum - Real.log current) / remaining| ≤ 22
        ∧ |Real.log maximum - Real.log current| ≤ 22 := by
  have ⟨hlo, hhi⟩ := log_range hcurrent.1 hcurrent.2
  have ⟨hlo', hhi'⟩ := log_range hmaximum.1 hmaximum.2
  have hone : (1 : ℝ) ≤ remaining := by exact_mod_cast hremaining
  have hdiff : |Real.log maximum - Real.log current| ≤ 22 := by
    rw [abs_le]
    constructor <;> linarith
  have hratio : |(Real.log maximum - Real.log current) / remaining| ≤ 22 := by
    rw [abs_div, abs_of_pos (by linarith : (0 : ℝ) < remaining)]
    exact le_trans (div_le_self (abs_nonneg _) hone) hdiff
  refine ⟨?_, hratio, hdiff⟩
  have hsum := abs_add_le (Real.log current) ((Real.log maximum - Real.log current) / remaining)
  rw [abs_of_nonneg hlo] at hsum
  linarith

theorem exactNext_le {current maximum : Int} {remaining : Nat} (hcurrent : 1 ≤ current)
    (hmaximum : 1 ≤ maximum) (hremaining : 1 ≤ remaining)
    : exactNext current maximum remaining ≤ current + ((maximum : ℝ) - current) / remaining := by
  have hone : (1 : ℝ) ≤ remaining := by exact_mod_cast hremaining
  have hcurrent' : (0 : ℝ) < current := by exact_mod_cast hcurrent
  have hmaximum' : (0 : ℝ) < maximum := by exact_mod_cast hmaximum
  have hle : (1 : ℝ) / remaining ≤ 1 := by
    rw [div_le_one (by linarith)]
    exact hone
  have hconvex := convexOn_exp.2 (Set.mem_univ (Real.log current)) (Set.mem_univ (Real.log maximum))
    (sub_nonneg.mpr hle) (by positivity) (sub_add_cancel 1 ((1 : ℝ) / remaining))
  simp only [smul_eq_mul, Real.exp_log hcurrent', Real.exp_log hmaximum'] at hconvex
  unfold exactNext
  calc Real.exp (Real.log current + (Real.log maximum - Real.log current) / remaining)
    _ = Real.exp ((1 - 1 / remaining) * Real.log current + 1 / remaining * Real.log maximum) := by
      congr 1
      ring
    _ ≤ (1 - 1 / remaining) * current + 1 / remaining * maximum := hconvex
    _ = current + ((maximum : ℝ) - current) / remaining := by ring

theorem exactNext_one {current maximum : Int} (hmaximum : 1 ≤ maximum)
    : exactNext current maximum 1 = maximum := by
  have hmaximum' : (0 : ℝ) < maximum := by exact_mod_cast hmaximum
  unfold exactNext
  rw [Nat.cast_one, div_one, add_sub_cancel, Real.exp_log hmaximum']

theorem exactNext_range {current maximum : Int} {remaining : Nat}
    (hcurrent : 1 ≤ current ∧ current ≤ intMax) (hmaximum : 1 ≤ maximum ∧ maximum ≤ intMax)
    (hremaining : 1 ≤ remaining)
    : 0 < exactNext current maximum remaining ∧ exactNext current maximum remaining ≤ 2 ^ 31 - 1 := by
  have hle := exactNext_le hcurrent.1 hmaximum.1 hremaining
  have hone : (1 : ℝ) ≤ remaining := by exact_mod_cast hremaining
  have hcurrent' : (current : ℝ) ≤ 2 ^ 31 - 1 := by
    have := hcurrent.2
    unfold intMax at this
    exact_mod_cast this
  have hmaximum' : (maximum : ℝ) ≤ 2 ^ 31 - 1 := by
    have := hmaximum.2
    unfold intMax at this
    exact_mod_cast this
  refine ⟨Real.exp_pos _, le_trans hle ?_⟩
  by_cases hup : (current : ℝ) ≤ maximum
  . have := div_le_self (sub_nonneg.mpr hup) hone
    linarith
  . have : ((maximum : ℝ) - current) / remaining ≤ 0 := by
      apply div_nonpos_of_nonpos_of_nonneg
      . linarith
      . linarith
    linarith

section Computed

variable {F : Type} {math : Floating F} {val : F → Option ℝ}

theorem near_logInt (hm : Accurate math val) {n : Int} (hn : 1 ≤ n ∧ n ≤ intMax)
    : Near val (math.log (math.ofInt n)) (Real.log n) (23 * roundoff) := by
  have ⟨hlo, hhi⟩ := log_range hn.1 hn.2
  have hpos : (0 : ℝ) < n := by exact_mod_cast hn.1
  have hn' := hn.2
  unfold intMax at hn'
  have hnear := near_log hm (val_ofInt hm (by omega) (by omega)) hpos
  apply hnear.mono
  rw [abs_of_nonneg hlo, mul_comm]
  apply mul_le_mul_of_nonneg_right _ roundoff_pos.le
  linarith

theorem near_logNext (hm : Accurate math val) {current maximum : Int} {remaining : Nat}
    (hcurrent : 1 ≤ current ∧ current ≤ intMax) (hmaximum : 1 ≤ maximum ∧ maximum ≤ intMax)
    (hremaining : 1 ≤ remaining ∧ remaining ≤ 2 ^ 31)
    : Near val (math.add (math.log (math.ofInt current))
          (math.div (math.sub (math.log (math.ofInt maximum)) (math.log (math.ofInt current)))
            (math.ofInt remaining)))
        (Real.log current + (Real.log maximum - Real.log current) / remaining) (170 * roundoff) := by
  have ⟨hsum, hratio, hdiff⟩ := log_next_range hcurrent hmaximum hremaining.1
  have hone : (1 : ℝ) ≤ remaining := by exact_mod_cast hremaining.1
  have hsmall : 1000 * roundoff ≤ 1 := by
    unfold roundoff
    norm_num
  have hpos := roundoff_pos
  have hval : val (math.ofInt remaining) = some (remaining : ℝ) := by
    have := val_ofInt hm (n := remaining) (by omega) (by exact_mod_cast hremaining.2)
    rw [this]
    norm_num
  have hsub := (near_logInt hm hmaximum).sub hm (near_logInt hm hcurrent) (by linarith)
  have hsub' := hsub.mono (f := 70 * roundoff) (by nlinarith)
  have hdiv := hsub'.div hm hval hone (by linarith)
  have hdiv' := hdiv.mono (f := 95 * roundoff) (by nlinarith)
  have hadd := (near_logInt hm hcurrent).add hm hdiv' (by linarith)
  exact hadd.mono (by nlinarith)

theorem toInt_next (hm : Accurate math val) {current maximum : Int} {remaining : Nat}
    (hcurrent : 1 ≤ current ∧ current ≤ intMax) (hmaximum : 1 ≤ maximum ∧ maximum ≤ intMax)
    (hremaining : 1 ≤ remaining ∧ remaining ≤ 2 ^ 31)
    : ∃ b : ℝ, |b - (exactNext current maximum remaining + 1 / 2)| < 1 / 2
        ∧ math.toInt (math.floor (math.add (math.exp (math.add (math.log (math.ofInt current))
            (math.div (math.sub (math.log (math.ofInt maximum)) (math.log (math.ofInt current)))
              (math.ofInt remaining)))) math.half)) = ⌊b⌋ := by
  have ⟨hnext, hnext'⟩ := exactNext_range hcurrent hmaximum hremaining.1
  have hlog := near_logNext hm hcurrent hmaximum hremaining
  have hroundoff : roundoff = 1 / 2 ^ 50 := rfl
  have hexp := hlog.exp hm (by rw [hroundoff]; norm_num) (by
    rw [← exactNext, hroundoff]
    linarith)
  rw [← exactNext] at hexp
  have hexp' := hexp.mono (f := 1 / 2 ^ 8) (by
    rw [hroundoff]
    linarith)
  have hadd := hexp'.add hm (near_self hm.half) (by
    rw [abs_of_pos (by linarith)]
    linarith)
  have hadd' := hadd.mono (f := 1 / 4) (by
    rw [abs_of_pos (by linarith), hroundoff]
    linarith)
  have ⟨b, hb, hfloor⟩ := toInt_floor hm hadd' (by linarith) (by linarith)
  exact ⟨b, by linarith, hfloor⟩

theorem nextRange_eq (hm : Accurate math val) {current maximum : Int} {remaining : Nat}
    (hcurrent : 1 ≤ current ∧ current ≤ intMax) (hmaximum : 1 ≤ maximum ∧ maximum ≤ intMax)
    (hremaining : 1 ≤ remaining ∧ remaining ≤ 2 ^ 31)
    : ∃ next : Int, next < exactNext current maximum remaining + 1
        ∧ exactNext current maximum remaining < next + 1
        ∧ nextRange math (math.log (math.ofInt maximum)) current remaining
          = if next > current then next else int32 (current + 1) := by
  have ⟨b, hb, hfloor⟩ := toInt_next hm hcurrent hmaximum hremaining
  have ⟨hbelow, habove⟩ := abs_lt.mp hb
  refine ⟨⌊b⌋, ?_, ?_, ?_⟩
  . have := Int.floor_le b
    linarith
  . have := Int.lt_floor_add_one b
    linarith
  . unfold nextRange
    dsimp only
    rw [hfloor]

theorem nextRange_le (hm : Accurate math val) {current maximum top : Int} {remaining : Nat}
    (hcurrent : 1 ≤ current) (hmaximum : 1 ≤ maximum ∧ maximum ≤ top) (htop : top < intMax)
    (hremaining : 1 ≤ remaining) (hroom : current + remaining ≤ top)
    : current < nextRange math (math.log (math.ofInt maximum)) current remaining
        ∧ nextRange math (math.log (math.ofInt maximum)) current remaining + remaining ≤ top + 1 := by
  have hmax : intMax < 2 ^ 31 := by decide
  have ⟨next, hnext, _, heq⟩ := @nextRange_eq F math val hm current maximum remaining
    ⟨hcurrent, by omega⟩ ⟨hmaximum.1, by omega⟩ ⟨hremaining, by omega⟩
  have hle : next + remaining ≤ top + 1 := by
    have hone : (1 : ℝ) ≤ remaining := by exact_mod_cast hremaining
    have hmaximum' : (maximum : ℝ) ≤ top := by exact_mod_cast hmaximum.2
    have hroom' : (remaining : ℝ) ≤ top - current := by
      have : (current : ℝ) + remaining ≤ top := by exact_mod_cast hroom
      linarith
    have hexact := exactNext_le hcurrent hmaximum.1 hremaining
    have hmean : ((maximum : ℝ) - current) / remaining ≤ top - current - remaining + 1 := by
      rw [div_le_iff₀ (by linarith)]
      nlinarith
    have hlt : (next : ℝ) < top - remaining + 2 := by linarith
    have : next < top - remaining + 2 := by exact_mod_cast hlt
    omega
  rw [heq]
  split
  . omega
  . rw [int32_of_range (by omega) (by omega)]
    omega

theorem nextRange_one (hm : Accurate math val) {current maximum : Int}
    (hcurrent : 1 ≤ current ∧ current ≤ intMax) (hmaximum : 1 ≤ maximum ∧ maximum ≤ intMax)
    (hlt : current < maximum)
    : maximum ≤ nextRange math (math.log (math.ofInt maximum)) current 1 := by
  have ⟨next, _, hnext, heq⟩ := nextRange_eq hm hcurrent hmaximum ⟨Nat.le_refl 1, by omega⟩
  rw [exactNext_one hmaximum.1] at hnext
  have hge : maximum < next + 1 := by exact_mod_cast hnext
  rw [heq, if_pos (by omega)]
  omega

end Computed

section Ranges

variable {F : Type} {math : Floating F} {val : F → Option ℝ} {logMax : F} {n i : Nat} {current : Int}
  {r r' : BucketRanges}

theorem setRanges_spec (h : setRanges math logMax n i current r = .ok r')
    (hcurrent : r.range i = current)
    : r'.bucketCount = r.bucketCount ∧ (∀ j, j ≤ i → r'.range j = r.range j)
        ∧ ∀ j, i ≤ j → j + 1 < n →
            r'.range (j + 1) = nextRange math logMax (r'.range j) (n - (j + 1)) := by
  fun_induction setRanges math logMax n i current r with
  | case1 i current r i' hlt next ih =>
    have ⟨m, hm, hrun⟩ := Except.bind_eq_ok.mp h
    have ⟨_, _, hcount, hself, hother⟩ := BucketRanges.setRange_spec hm
    have ⟨hcount', hsame, hnext⟩ := ih m hrun hself
    have hi : r'.range i = current := by
      rw [hsame i (by omega), hother i (by omega), hcurrent]
    refine ⟨by rw [hcount', hcount], ?_, ?_⟩
    . intro j hj
      rw [hsame j (by omega), hother j (by omega)]
    . intro j hj hlt'
      by_cases heq : j = i
      . rw [heq, hi, hsame (i + 1) (Nat.le_refl _)]
        exact hself
      . exact hnext j (by omega) hlt'
  | case2 i current r i' hge =>
    injection h with h
    rw [← h]
    refine ⟨rfl, fun _ _ => rfl, ?_⟩
    intro j hj hlt
    omega

theorem exists_setRanges (hm : Accurate math val) {maximum top : Int}
    (hmaximum : 1 ≤ maximum ∧ maximum ≤ top) (htop : top < intMax) (hcount : r.bucketCount = n)
    (hcurrent : 1 ≤ current) (hi : i < n) (hroom : current + (n - (i + 1)) ≤ top)
    : ∃ r', setRanges math (math.log (math.ofInt maximum)) n i current r = .ok r' := by
  fun_induction setRanges math (math.log (math.ofInt maximum)) n i current r with
  | case1 i current r i' hlt next ih =>
    have ⟨hgt, hle⟩ : current < next ∧ next + (n - i' : Nat) ≤ top + 1 :=
      nextRange_le hm hcurrent hmaximum htop (by omega) (by omega)
    have ⟨m, hset⟩ : ∃ m, r.setRange i' next = .ok m :=
      BucketRanges.exists_setRange (by omega) (by omega)
    have ⟨_, _, hcount', _⟩ := BucketRanges.setRange_spec hset
    have ⟨r', hr'⟩ := ih m (by omega) (by omega) (by omega) (by omega)
    exists r'
    rw [hset]
    exact hr'
  | case2 i current r i' hge => exact ⟨r, rfl⟩

theorem initializeBucketRanges_spec {minimum maximum : Int}
    (h : initializeBucketRanges math minimum maximum r = .ok r') (hcount : 1 < r.bucketCount)
    (hfirst : r.range 0 = 0)
    : 0 < minimum ∧ r'.bucketCount = r.bucketCount ∧ r'.range 0 = 0 ∧ r'.range 1 = minimum
        ∧ (∀ j, 1 ≤ j → j + 1 < r.bucketCount → r'.range (j + 1)
            = nextRange math (math.log (math.ofInt maximum)) (r'.range j) (r.bucketCount - (j + 1)))
        ∧ r'.range r.bucketCount = kSampleTypeMax := by
  unfold initializeBucketRanges at h
  have ⟨m₁, hm₁, h⟩ := Except.bind_eq_ok.mp h
  have ⟨m₂, hm₂, h⟩ := Except.bind_eq_ok.mp h
  have ⟨_, hpos, hcount₁, hself₁, hother₁⟩ := BucketRanges.setRange_spec hm₁
  have ⟨hcount₂, hsame₂, hnext₂⟩ := setRanges_spec hm₂ hself₁
  have ⟨_, _, hcount₃, hself₃, hother₃⟩ := BucketRanges.setRange_spec h
  have hcounts : m₂.bucketCount = r.bucketCount := by rw [hcount₂, hcount₁]
  rw [hcounts] at hself₃ hother₃
  rw [hcount₁] at hnext₂
  refine ⟨hpos, by rw [hcount₃, hcounts], ?_, ?_, ?_, hself₃⟩
  . rw [hother₃ 0 (by omega), hsame₂ 0 (by omega), hother₁ 0 (by omega), hfirst]
  . rw [hother₃ 1 (by omega), hsame₂ 1 (Nat.le_refl 1), hself₁]
  . intro j hj hlt
    rw [hother₃ (j + 1) (by omega), hother₃ j (by omega)]
    exact hnext₂ j hj hlt

theorem exists_initializeBucketRanges (hm : Accurate math val) {minimum maximum top : Int}
    (hminimum : 1 ≤ minimum) (hmaximum : 1 ≤ maximum ∧ maximum ≤ top) (htop : top < intMax)
    (hcount : 1 < r.bucketCount) (hroom : minimum + r.bucketCount - 2 ≤ top)
    : ∃ r', initializeBucketRanges math minimum maximum r = .ok r' := by
  have ⟨m₁, hm₁⟩ : ∃ m, r.setRange 1 minimum = .ok m :=
    BucketRanges.exists_setRange (by omega) (by omega)
  have ⟨_, _, hcount₁, hself₁, _⟩ := BucketRanges.setRange_spec hm₁
  have ⟨m₂, hm₂⟩ : ∃ m,
      setRanges math (math.log (math.ofInt maximum)) m₁.bucketCount 1 minimum m₁ = .ok m :=
    exists_setRanges hm hmaximum htop rfl hminimum (by omega) (by omega)
  have ⟨m₃, hm₃⟩ : ∃ m, m₂.setRange m₂.bucketCount kSampleTypeMax = .ok m :=
    BucketRanges.exists_setRange (Nat.le_refl _) (by decide)
  exists m₃
  unfold initializeBucketRanges
  rw [Except.bind_eq_ok]
  refine ⟨m₁, hm₁, ?_⟩
  rw [Except.bind_eq_ok]
  exact ⟨m₂, hm₂, hm₃⟩

theorem range_room (hm : Accurate math val) {minimum maximum top : Int} (hminimum : 1 ≤ minimum)
    (hmaximum : 1 ≤ maximum ∧ maximum ≤ top) (htop : top < intMax)
    (hroom : minimum + r.bucketCount - 2 ≤ top) (hone : r'.range 1 = minimum)
    (hnext : ∀ j, 1 ≤ j → j + 1 < r.bucketCount → r'.range (j + 1)
      = nextRange math (math.log (math.ofInt maximum)) (r'.range j) (r.bucketCount - (j + 1)))
    {j : Nat} (hj : 1 ≤ j) (hlt : j < r.bucketCount)
    : 1 ≤ r'.range j ∧ r'.range j + (r.bucketCount - (j + 1)) ≤ top := by
  induction j, hj using Nat.le_induction with
  | base =>
    rw [hone]
    omega
  | succ j hj ih =>
    have ⟨hlo, hhi⟩ := ih (by omega)
    have hpos : 1 ≤ r.bucketCount - (j + 1) := by omega
    have hstep := nextRange_le hm hlo hmaximum htop hpos (by omega)
    rw [← hnext j hj hlt] at hstep
    omega

theorem valid_of_room (hm : Accurate math val) {minimum maximum top : Int}
    (h : initializeBucketRanges math minimum maximum r = .ok r') (hcount : 1 < r.bucketCount)
    (hfirst : r.range 0 = 0) (hmaximum : 1 ≤ maximum ∧ maximum ≤ top) (htop : top < intMax)
    (hroom : minimum + r.bucketCount - 2 ≤ top) : r'.Valid := by
  have ⟨hpos, hcount', hzero, hone, hnext, hlast⟩ := initializeBucketRanges_spec h hcount hfirst
  have hrange {j : Nat} (hj : 1 ≤ j) (hlt : j < r.bucketCount) :=
    range_room hm hpos hmaximum htop hroom hone hnext hj hlt
  constructor
  . intro j hlt
    rw [hcount'] at hlt
    by_cases hzero' : j = 0
    . rw [hzero', hzero, hone]
      exact hpos
    . have ⟨hlo, hhi⟩ := hrange (by omega) hlt
      by_cases hend : j + 1 < r.bucketCount
      . rw [hnext j (by omega) hend]
        exact (nextRange_le hm hlo hmaximum htop (by omega) (by omega)).1
      . have heq : j + 1 = r.bucketCount := by omega
        rw [heq, hlast]
        unfold kSampleTypeMax
        omega
  . exact hzero
  . rw [hcount']
    exact hlast

theorem room_of_valid (hm : Accurate math val) {minimum maximum : Int}
    (h : initializeBucketRanges math minimum maximum r = .ok r') (hcount : 2 < r.bucketCount)
    (hfirst : r.range 0 = 0) (hmaximum : 1 ≤ maximum ∧ maximum ≤ intMax) (hvalid : r'.Valid)
    : 1 ≤ minimum ∧ maximum < intMax ∧ minimum + r.bucketCount - 2 < intMax := by
  have ⟨hpos, hcount', hzero, hone, hnext, hlast⟩ := initializeBucketRanges_spec h (by omega) hfirst
  have hincreasing := hvalid.increasing
  rw [hcount'] at hincreasing
  have hlow : ∀ j, 1 ≤ j → j ≤ r.bucketCount → minimum + (j - 1) ≤ r'.range j := by
    intro j hj hle
    induction j, hj using Nat.le_induction with
    | base =>
      rw [hone]
      omega
    | succ j hj ih =>
      have := ih (by omega)
      have := hincreasing j (by omega)
      push_cast
      omega
  have hfull := hlow r.bucketCount (by omega) (Nat.le_refl _)
  rw [hlast] at hfull
  unfold kSampleTypeMax at hfull hlast
  refine ⟨hpos, ?_, by omega⟩
  apply Classical.byContradiction
  intro hge
  have hlo := hlow (r.bucketCount - 2) (by omega) (by omega)
  have hlt := hincreasing (r.bucketCount - 2) (by omega)
  have hlt' := hincreasing (r.bucketCount - 2 + 1) (by omega)
  have hend : r.bucketCount - 2 + 1 + 1 = r.bucketCount := by omega
  have hone' : r.bucketCount - (r.bucketCount - 2 + 1) = 1 := by omega
  rw [hend, hlast] at hlt'
  have hstep := hnext (r.bucketCount - 2) (by omega) (by omega)
  rw [hone'] at hstep
  have hbeyond : maximum
      ≤ nextRange math (math.log (math.ofInt maximum)) (r'.range (r.bucketCount - 2)) 1 :=
    nextRange_one hm ⟨by omega, by omega⟩ hmaximum (by omega)
  omega

end Ranges

theorem inspectConstructionArguments_spec {minimum maximum : Int} {bucketCount : Nat}
    (h : (inspectConstructionArguments minimum maximum bucketCount).1 = true)
    : 2 ≤ maximum ∧ 3 ≤ bucketCount := by
  unfold inspectConstructionArguments kBucketCountMax kSampleTypeMax intMax at h
  dsimp only at h
  grind

end Histogram

namespace DeclaredHistogram

open Floating Histogram

variable {F : Type} {math : Floating F} {val : F → Option ℝ} {π : Type} [DecidableEq π]

theorem create_eq_ok {name : String} {minimum maximum : Int} {bucketCount : Nat} {h : DeclaredHistogram}
    (hcreate : create math name minimum maximum bucketCount = .ok h)
    : ∃ r, BucketRanges.create (sizeT (bucketCount + 1)).toNat = .ok r
        ∧ initializeBucketRanges math minimum maximum r = .ok h.bucketRanges := by
  unfold create at hcreate
  have ⟨r, hr, hcreate⟩ := Except.bind_eq_ok.mp hcreate
  have ⟨r', hr', hcreate⟩ := Except.bind_eq_ok.mp hcreate
  have ⟨histogram, hhistogram, hcreate⟩ := Except.bind_eq_ok.mp hcreate
  unfold Histogram.create at hhistogram
  have ⟨samples, _, hhistogram⟩ := Except.bind_eq_ok.mp hhistogram
  injection hhistogram with hhistogram
  injection hcreate with hcreate
  rw [← hcreate, ← hhistogram]
  exact ⟨r, hr, hr'⟩

theorem exists_create {name : String} {minimum maximum : Int} {bucketCount : Nat} {r r' : BucketRanges}
    (hr : BucketRanges.create (sizeT (bucketCount + 1)).toNat = .ok r)
    (hr' : initializeBucketRanges math minimum maximum r = .ok r') (hvalid : r'.Valid)
    : ∃ h, create math name minimum maximum bucketCount = .ok h ∧ h.bucketRanges = r'
        ∧ Records r' [] h.toHistogram := by
  have ⟨histogram, hhistogram, hrecords⟩ := create_records hvalid
  refine ⟨⟨histogram, key name, minimum, maximum⟩, ?_, hrecords.ownRanges, hrecords⟩
  unfold create
  rw [hr, Except.bind_eq_ok]
  refine ⟨r, rfl, ?_⟩
  rw [hr', Except.bind_eq_ok]
  refine ⟨r', rfl, ?_⟩
  rw [hhistogram]
  rfl

-- No check fails, and each sample that is added later on is counted in the one bucket for it.
def Accepts (math : Floating F) (recorder : HistogramRecorder π) (heap : π → Option DeclaredHistogram)
    (pointer : π) (name : String) (minimum maximum : Int) (bucketCount : Nat) : Prop :=
  ∃ pointer' recorder' heap' h,
    factoryGet math recorder heap pointer name minimum maximum bucketCount
        = .ok (pointer', recorder', heap')
      ∧ heap' pointer' = some h ∧ h.bucketRanges.Valid
      ∧ ∀ values, ∃ h', addAll h.toHistogram values = .ok h' ∧ Recorded h.bucketRanges values h'

theorem factoryGet_eq {recorder : HistogramRecorder π}
    {heap : π → Option DeclaredHistogram} {pointer : π} {name : String} {minimum maximum : Int}
    {bucketCount : Nat} (hname : recorder.findHistogram name = none)
    : factoryGet math recorder heap pointer name minimum maximum bucketCount = (do
        let histogram ← create math name minimum maximum bucketCount
        return (pointer, { recorder with histograms := recorder.histograms.insert name pointer },
          Function.update heap pointer (some histogram))) := by
  have hfind : recorder.histograms.find name = none := hname
  unfold factoryGet HistogramRecorder.registerOrDeleteDuplicate
  rw [hname, hfind]

theorem factoryGet_iff (hm : Accurate math val) {recorder : HistogramRecorder π}
    {heap : π → Option DeclaredHistogram} {pointer : π} {name : String} {minimum maximum : Int}
    {bucketCount : Nat} (hmaximum : maximum ≤ intMax) (hcount : bucketCount < 2 ^ 64)
    (hname : recorder.findHistogram name = none)
    (hinspect : (inspectConstructionArguments minimum maximum bucketCount).1 = true)
    : Accepts math recorder heap pointer name minimum maximum bucketCount
        ↔ 1 ≤ minimum ∧ maximum < kSampleTypeMax ∧ minimum + bucketCount - 2 < kSampleTypeMax := by
  have ⟨htwo, hthree⟩ := inspectConstructionArguments_spec hinspect
  unfold Accepts
  rw [factoryGet_eq hname]
  constructor
  . intro ⟨pointer', recorder', heap', h, hget, hheap, hvalid, _⟩
    have ⟨h', hcreate, hget⟩ := Except.bind_eq_ok.mp hget
    injection hget with hget
    simp only [Prod.mk.injEq] at hget
    rw [← hget.1, ← hget.2.2, Function.update_self, Option.some.injEq] at hheap
    rw [← hheap] at hvalid
    have ⟨r, hr, hinit⟩ := create_eq_ok hcreate
    have ⟨hpos, hcounts, hfirst⟩ := BucketRanges.create_eq_ok hr
    have hsize : (sizeT (bucketCount + 1)).toNat = bucketCount + 1 := by
      unfold sizeT at hpos ⊢
      omega
    rw [hsize, Nat.add_sub_cancel] at hcounts
    rw [← hcounts]
    exact room_of_valid hm hinit (by omega) hfirst ⟨by omega, hmaximum⟩ hvalid
  . intro ⟨hlo, hhi, hroom⟩
    have hsize : (sizeT (bucketCount + 1)).toNat = bucketCount + 1 := by
      unfold kSampleTypeMax intMax at hroom
      unfold sizeT
      omega
    have ⟨r, hr⟩ : ∃ r, BucketRanges.create (sizeT (bucketCount + 1)).toNat = .ok r :=
      BucketRanges.exists_create (by omega)
    have ⟨_, hcounts, hfirst⟩ := BucketRanges.create_eq_ok hr
    rw [hsize, Nat.add_sub_cancel] at hcounts
    -- Room for the ranges up to the maximum, or further if there are too many of them
    have ⟨top, hmaxTop, hroomTop, htop⟩ : ∃ top,
        maximum ≤ top ∧ minimum + bucketCount - 2 ≤ top ∧ top < intMax :=
      ⟨max maximum (minimum + bucketCount - 2), by omega, by omega, max_lt hhi hroom⟩
    rw [← hcounts] at hroomTop
    have ⟨r', hr'⟩ := exists_initializeBucketRanges hm hlo ⟨by omega, hmaxTop⟩ htop (by omega) hroomTop
    have hvalid := valid_of_room hm hr' (by omega) hfirst ⟨by omega, hmaxTop⟩ htop hroomTop
    have ⟨h, hcreate, hranges, hrecords⟩ : ∃ h, create math name minimum maximum bucketCount = .ok h
        ∧ h.bucketRanges = r' ∧ Records r' [] h.toHistogram := exists_create hr hr' hvalid
    refine ⟨pointer, { recorder with histograms := recorder.histograms.insert name pointer },
      Function.update heap pointer (some h), h, ?_, Function.update_self _ _ _, ?_, ?_⟩
    . rw [hcreate]
      rfl
    . rw [hranges]
      exact hvalid
    . intro values
      have ⟨h', hh', hrecords'⟩ := addAll_records hvalid hrecords values
      rw [hranges]
      exact ⟨h', hh', recorded_of_records hrecords'⟩

theorem factoryGet_latency
    : Accepts exact (HistogramRecorder.create : HistogramRecorder Nat) (fun _ => none) 0
        "latency" 1 10 5 :=
  (factoryGet_iff accurate_exact (by decide) (by decide) rfl (by decide)).mpr (by decide)

-- The validator replaces a minimum of zero, but the constructor uses it as it is.
theorem not_accepts_zero
    : (inspectConstructionArguments 0 10 5).1 = true
        ∧ ¬ Accepts exact (HistogramRecorder.create : HistogramRecorder Nat) (fun _ => none) 0
          "latency" 0 10 5 := by
  refine ⟨by decide, ?_⟩
  intro ⟨_, _, _, h, hget, _⟩
  rw [factoryGet_eq rfl] at hget
  have ⟨h', hcreate, _⟩ := Except.bind_eq_ok.mp hget
  have ⟨r, hr, hinit⟩ := create_eq_ok hcreate
  have ⟨_, hcount, hfirst⟩ := BucketRanges.create_eq_ok hr
  have hfive : 1 < r.bucketCount := by
    rw [hcount]
    decide
  have ⟨hpos, _⟩ := initializeBucketRanges_spec hinit hfive hfirst
  contradiction

end DeclaredHistogram
end Claire
