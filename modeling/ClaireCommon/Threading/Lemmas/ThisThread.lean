import ClaireCommon.Events.Lemmas.Timespec
import ClaireCommon.Threading.Impl.ThisThread

/-!
This module contains the comparison of the two conversions from microseconds to `Timespec`, the one
of the sleep and the one of the timer queue.
-/

namespace Claire

theorem normal_sleepForMicroSeconds {us : Int} (hnonneg : 0 ≤ us)
    : (sleepForMicroSeconds us).Normal := by
  unfold sleepForMicroSeconds
  rw [Int.tmod_eq_emod_of_nonneg hnonneg]
  constructor
  . dsimp only
    omega
  . dsimp only
    omega

-- The divisor of the seconds has one zero too many, so that only durations without a full second
-- come out right.
theorem sleepForMicroSeconds_represents_iff {us : Int} (hnonneg : 0 ≤ us)
    : (sleepForMicroSeconds us).Represents us ↔ us < 1000000 := by
  constructor
  . intro h
    have hsec := h.sec_eq
    unfold sleepForMicroSeconds at hsec
    dsimp only at hsec
    rw [Int.tdiv_eq_ediv_of_nonneg hnonneg] at hsec
    omega
  . intro hlt
    constructor
    . exact normal_sleepForMicroSeconds hnonneg
    . unfold Timespec.nanoSeconds sleepForMicroSeconds
      dsimp only
      rw [Int.tdiv_eq_ediv_of_nonneg hnonneg, Int.tmod_eq_emod_of_nonneg hnonneg]
      omega

-- Both conversions are exact for this duration, and where both apply they agree.
structure ConvertsExactly (us : Int) : Prop where
  sleep : (sleepForMicroSeconds us).Represents us
  timer : ∀ when now,
    int64 (when - now) = us → 100 ≤ us → (howMuchTimeFromNow when now).Represents us
  agree : ∀ when now,
    int64 (when - now) = us → 100 ≤ us → howMuchTimeFromNow when now = sleepForMicroSeconds us

theorem convertsExactly_iff (us : Int) (hnonneg : 0 ≤ us)
    : ConvertsExactly us ↔ us < 1000000 := by
  have htimer : ∀ when now,
      int64 (when - now) = us → 100 ≤ us → (howMuchTimeFromNow when now).Represents us := by
    intro when now hus hmin
    have := howMuchTimeFromNow_represents when now
    rwa [hus, max_eq_right hmin] at this
  rw [← sleepForMicroSeconds_represents_iff hnonneg]
  constructor
  . intro h
    exact h.sleep
  . intro hsleep
    constructor
    . exact hsleep
    . exact htimer
    . intro when now hus hmin
      exact (htimer when now hus hmin).unique hsleep

theorem convertsExactly_iff_half_second : ConvertsExactly 500000 ↔ (500000 : Int) < 1000000 :=
  convertsExactly_iff 500000 (by decide)

-- A sleep of one second does not sleep at all, while the timer for one second is exact.
theorem not_convertsExactly_second
    : ¬ConvertsExactly 1000000
        ∧ sleepForMicroSeconds 1000000 = ⟨0, 0⟩
        ∧ howMuchTimeFromNow 1000000 0 = ⟨1, 0⟩ := by
  refine ⟨?_, by decide, by decide⟩
  intro h
  have := h.sleep.exact
  revert this
  decide

end Claire
