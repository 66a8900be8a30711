import ClaireCommon.Metrics.Lemmas.Histogram

/-!
This module contains for which weights `SampleVector::Accumulate` adds them to the count of a bucket: it
counts one sample in every call.
-/

namespace Claire
namespace SampleVector

structure Call where
  value : Int
  count : Int
  value_range : -2 ^ 31 ≤ value ∧ value < 2 ^ 31
  count_range : 0 ≤ count ∧ count < 2 ^ 31

def accumulateAll (samples : SampleVector) (calls : List Call) : Except CheckFailure SampleVector :=
  calls.foldlM (fun samples call => samples.accumulate call.value call.count) samples

def InBucket (ranges : BucketRanges) (i : Nat) (value : Int) : Prop :=
  ranges.range i ≤ value ∧ value < ranges.range (i + 1)

instance (ranges : BucketRanges) (i : Nat) (value : Int) : Decidable (InBucket ranges i value) := by
  unfold InBucket
  infer_instance

def callsInto (ranges : BucketRanges) (i : Nat) (calls : List Call) : List Call :=
  calls.filter fun call => InBucket ranges i call.value

def weight (calls : List Call) : Int := (calls.map Call.count).sum

-- The counts and the sum are those of samples that were added `count` times.
structure Weighs (ranges : BucketRanges) (calls : List Call) (samples : SampleVector) : Prop where
  totalCount : samples.totalCount = int32 (weight calls)
  getCount : ∀ value, ranges.range 0 ≤ value → value < ranges.range ranges.bucketCount →
    ∃ i < ranges.bucketCount, InBucket ranges i value ∧
      samples.getCount value = .ok (int32 (weight (callsInto ranges i calls)))
  sum : samples.sum = int64 (calls.map fun call => call.count * call.value).sum

structure CountsCalls (ranges : BucketRanges) (calls : List Call) (samples : SampleVector) : Prop where
  bucketRanges : samples.bucketRanges = ranges
  length : samples.counts.length = ranges.bucketCount
  count : ∀ i, i < ranges.bucketCount →
    samples.counts.getD i 0 = int32 (callsInto ranges i calls).length
  total : int32 samples.counts.sum = int32 calls.length
  sum : samples.sum = int64 (calls.map fun call => int32 (call.count * call.value)).sum

variable {ranges : BucketRanges} {calls : List Call} {samples : SampleVector}

theorem create_countsCalls (hpos : 1 ≤ ranges.bucketCount)
    : ∃ samples, create ranges = .ok samples ∧ CountsCalls ranges [] samples := by
  refine ⟨⟨List.replicate ranges.bucketCount 0, ranges, 0⟩, ?_, ?_⟩
  . simp [create, hpos, bind, Except.bind, pure, Except.pure]
  . constructor
    . rfl
    . exact List.length_replicate
    . intro i hi
      simp [callsInto, hi]
      rfl
    . simp
    . rfl

theorem accumulate_countsCalls (hincreasing : ranges.Increasing) (hpos : 1 ≤ ranges.bucketCount)
    (h : CountsCalls ranges calls samples) {call : Call}
    (hcall : ranges.range 0 ≤ call.value ∧ call.value < ranges.range ranges.bucketCount)
    : ∃ samples', samples.accumulate call.value call.count = .ok samples' ∧
        CountsCalls ranges (calls ++ [call]) samples' := by
  have hranges := h.bucketRanges
  subst hranges
  have ⟨counts, haccumulate, hlength, hcounts, htotal⟩ := accumulate_spec hincreasing h.length hpos
    hcall.1 hcall.2 call.count
  refine ⟨_, haccumulate, ?_⟩
  constructor
  . rfl
  . exact hlength.trans h.length
  . intro j hj
    dsimp only
    rw [hcounts j hj, h.count j hj]
    unfold callsInto
    rw [List.filter_append, List.length_append]
    split
    case isTrue hbucket =>
      simp [show InBucket samples.bucketRanges j call.value from hbucket]
    case isFalse hbucket =>
      simp [show ¬InBucket samples.bucketRanges j call.value from hbucket]
  . rw [htotal, ← int32_int32_add, h.total, int32_int32_add, List.length_append]
    rfl
  . dsimp only
    rw [h.sum, int64_int64_add, List.map_append, List.sum_append]
    simp

theorem accumulateAll_countsCalls (hincreasing : ranges.Increasing) (hpos : 1 ≤ ranges.bucketCount)
    {old : List Call} (h : CountsCalls ranges old samples)
    (hcalls : ∀ call ∈ calls, ranges.range 0 ≤ call.value ∧ call.value < ranges.range ranges.bucketCount)
    : ∃ samples', samples.accumulateAll calls = .ok samples' ∧
        CountsCalls ranges (old ++ calls) samples' := by
  induction calls generalizing old samples with
  | nil =>
    rw [List.append_nil]
    exact ⟨samples, rfl, h⟩
  | cons call calls ih =>
    rw [List.forall_mem_cons] at hcalls
    have ⟨m, hm, hmcounts⟩ := accumulate_countsCalls hincreasing hpos h hcalls.1
    have ⟨samples', hsamples', hcounts⟩ := ih hmcounts hcalls.2
    exists samples'
    constructor
    . unfold accumulateAll at hsamples' ⊢
      rw [List.foldlM_cons, hm]
      exact hsamples'
    . rw [List.append_assoc] at hcounts
      exact hcounts

theorem accumulated (hincreasing : ranges.Increasing) (hpos : 1 ≤ ranges.bucketCount)
    (hcalls : ∀ call ∈ calls, ranges.range 0 ≤ call.value ∧ call.value < ranges.range ranges.bucketCount)
    : ∃ samples, (create ranges >>= (accumulateAll · calls)) = .ok samples ∧
        CountsCalls ranges calls samples := by
  have ⟨initial, hinitial, hcounts⟩ := create_countsCalls hpos
  have ⟨samples, hsamples, hcounts'⟩ := accumulateAll_countsCalls hincreasing hpos hcounts hcalls
  exists samples
  constructor
  . rw [hinitial]
    exact hsamples
  . exact hcounts'

theorem weight_of_ones (h : ∀ call ∈ calls, call.count = 1) : weight calls = calls.length := by
  unfold weight
  rw [List.map_congr_left h]
  simp

theorem weighs_of_ones (hpos : 1 ≤ ranges.bucketCount) (h : CountsCalls ranges calls samples)
    (hones : ∀ call ∈ calls, call.count = 1) : Weighs ranges calls samples := by
  have hranges := h.bucketRanges
  subst hranges
  constructor
  . rw [totalCount_eq, h.total, weight_of_ones hones]
  . intro value hlo hhi
    have ⟨i, hi, hlt, hle, hgt⟩ := getBucketIndex_of_range hpos hlo hhi
    have hinto : ∀ call ∈ callsInto samples.bucketRanges i calls, call.count = 1 := by
      intro call hcall
      apply hones
      apply List.mem_of_mem_filter hcall
    refine ⟨i, hlt, ⟨hle, hgt⟩, ?_⟩
    unfold getCount
    rw [hi, weight_of_ones hinto, ← h.count i hlt]
    rfl
  . rw [h.sum]
    congr 2
    apply List.map_congr_left
    intro call hcall
    have hrange := call.value_range
    rw [hones call hcall, Int.one_mul, int32_of_range hrange.1 hrange.2]

theorem weight_append (calls calls' : List Call)
    : weight (calls ++ calls') = weight calls + weight calls' := by
  unfold weight
  rw [List.map_append, List.sum_append]

theorem count_eq_one {call : Call} (hbefore : int32 (weight calls) = int32 calls.length)
    (hbehind : int32 (weight (calls ++ [call])) = int32 (calls ++ [call]).length) : call.count = 1 := by
  have hrange := call.count_range
  have hsingle : weight [call] = call.count := by simp [weight]
  rw [weight_append, List.length_append, List.length_singleton, hsingle] at hbehind
  have hemod (x : Int) : int32 x % 2 ^ 32 = x % 2 ^ 32 := Int.bmod_emod
  have hmod := hemod (weight calls)
  have hmod' := hemod (weight calls + call.count)
  rw [hbefore, hemod] at hmod
  rw [hbehind, hemod] at hmod'
  omega

theorem weighs_iff (hincreasing : ranges.Increasing) (hpos : 1 ≤ ranges.bucketCount)
    (hcalls : ∀ call ∈ calls, ranges.range 0 ≤ call.value ∧ call.value < ranges.range ranges.bucketCount)
    : (∀ calls', calls' <+: calls → ∃ samples,
          (create ranges >>= (accumulateAll · calls')) = .ok samples ∧ Weighs ranges calls' samples)
        ↔ ∀ call ∈ calls, call.count = 1 := by
  have hcounts {calls' : List Call} (h : calls' <+: calls) := by
    apply @accumulated ranges calls' hincreasing hpos
    intro call hcall
    apply hcalls
    apply h.subset hcall
  constructor
  . intro hweighs call hcall
    have htotal {calls' : List Call} (h : calls' <+: calls)
        : int32 (weight calls') = int32 calls'.length := by
      have ⟨samples, hsamples, hcounted⟩ := hcounts h
      have ⟨samples', hsamples', hweighed⟩ := hweighs calls' h
      rw [hsamples] at hsamples'
      injection hsamples' with heq
      subst heq
      rw [← hweighed.totalCount, totalCount_eq, hcounted.total]
    have ⟨before, behind, heq⟩ := List.append_of_mem hcall
    subst heq
    apply @count_eq_one before
    . apply htotal
      apply List.prefix_append
    . apply htotal
      exact ⟨behind, by simp⟩
  . intro hones calls' h
    have ⟨samples, hsamples, hcounted⟩ := hcounts h
    refine ⟨samples, hsamples, weighs_of_ones hpos hcounted ?_⟩
    intro call hcall
    apply hones
    apply h.subset hcall

def onceTwo : Call := ⟨2, 1, by decide, by decide⟩

def twiceTwo : Call := ⟨2, 2, by decide, by decide⟩

theorem weighs_iff_onceTwo
    : (∀ calls', calls' <+: [onceTwo, onceTwo] → ∃ samples,
          (create Histogram.fourBuckets >>= (accumulateAll · calls')) = .ok samples ∧
          Weighs Histogram.fourBuckets calls' samples)
        ↔ ∀ call ∈ [onceTwo, onceTwo], call.count = 1 :=
  weighs_iff ⟨Histogram.fourBuckets_valid.increasing⟩ (by decide) (by decide)

theorem not_weighs_twiceTwo
    : ¬∃ samples, (create Histogram.fourBuckets >>= (accumulateAll · [twiceTwo])) = .ok samples ∧
        Weighs Histogram.fourBuckets [twiceTwo] samples := by
  intro h
  have ⟨samples, hsamples, hweighs⟩ := h
  have ⟨samples', hsamples', hcounts⟩ := @accumulated Histogram.fourBuckets [twiceTwo]
    ⟨Histogram.fourBuckets_valid.increasing⟩ (by decide) (by decide)
  rw [hsamples] at hsamples'
  injection hsamples' with heq
  subst heq
  have htotal := hweighs.totalCount
  rw [totalCount_eq, hcounts.total] at htotal
  revert htotal
  decide

end SampleVector
end Claire
