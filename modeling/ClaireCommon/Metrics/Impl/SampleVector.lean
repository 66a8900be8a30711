import ClaireCommon.Metrics.Impl.Histogram

/-!
This module contains how the samples of one histogram are added to those of another.
-/

namespace Claire

-- It stands at a bucket that has samples, or behind the last bucket.
structure SampleVectorIterator where
  counts : List Int
  bucketRanges : BucketRanges
  index : Nat
  index_le : index ≤ counts.length
  count_ne_zero : index < counts.length → counts.getD index 0 ≠ 0

namespace SampleVectorIterator

def skipEmptyBuckets (counts : List Int) (index : Nat) : Nat :=
  if index < counts.length then
    if counts.getD index 0 ≠ 0 then index else skipEmptyBuckets counts (index + 1)
  else
    index
termination_by counts.length - index

theorem skipEmptyBuckets_le {counts : List Int} {index : Nat} (h : index ≤ counts.length)
    : skipEmptyBuckets counts index ≤ counts.length := by
  fun_induction skipEmptyBuckets counts index with
  | case1 => exact h
  | case2 index hlt hzero ih => exact ih hlt
  | case3 => exact h

theorem count_skipEmptyBuckets_ne_zero (counts : List Int) (index : Nat)
    : skipEmptyBuckets counts index < counts.length →
        counts.getD (skipEmptyBuckets counts index) 0 ≠ 0 := by
  fun_induction skipEmptyBuckets counts index with
  | case1 index hlt hne =>
    intro _
    exact hne
  | case2 index hlt hzero ih => exact ih
  | case3 index hge =>
    intro hlt
    contradiction

def startingAt (counts : List Int) (bucketRanges : BucketRanges) (index : Nat)
    (h : index ≤ counts.length) : SampleVectorIterator where
  counts := counts
  bucketRanges := bucketRanges
  index := skipEmptyBuckets counts index
  index_le := skipEmptyBuckets_le h
  count_ne_zero := count_skipEmptyBuckets_ne_zero counts index

def create (counts : List Int) (bucketRanges : BucketRanges)
    : Except CheckFailure SampleVectorIterator := do
  check .bucketCountGeSize (bucketRanges.bucketCount ≥ counts.length)
  return startingAt counts bucketRanges 0 (Nat.zero_le _)

def done (iter : SampleVectorIterator) : Bool := iter.index = iter.counts.length

theorem index_lt {iter : SampleVectorIterator} (h : iter.done = false)
    : iter.index < iter.counts.length := by
  have := iter.index_le
  have hne : iter.index ≠ iter.counts.length := by
    intro heq
    unfold done at h
    rw [decide_eq_false_iff_not] at h
    exact h heq
  omega

-- The `DCHECK` of `Next` and `Get` is their argument.
def next (iter : SampleVectorIterator) (h : iter.done = false) : SampleVectorIterator :=
  startingAt iter.counts iter.bucketRanges (iter.index + 1) (index_lt h)

def get (iter : SampleVectorIterator) (_ : iter.done = false) : Int × Int × Int :=
  (iter.bucketRanges.range iter.index, iter.bucketRanges.range (iter.index + 1),
    iter.counts.getD iter.index 0)

theorem le_skipEmptyBuckets (counts : List Int) (index : Nat)
    : index ≤ skipEmptyBuckets counts index := by
  fun_induction skipEmptyBuckets counts index <;> omega

theorem index_lt_next {iter : SampleVectorIterator} (h : iter.done = false)
    : iter.index < (iter.next h).index :=
  le_skipEmptyBuckets iter.counts (iter.index + 1)

end SampleVectorIterator

inductive Operator where
  | add
  | subtract
  deriving DecidableEq, Repr

def Operator.apply : Operator → Int → Int
  | .add, count => count
  | .subtract, count => -count

namespace SampleVector

def iterator (samples : SampleVector) : Except CheckFailure SampleVectorIterator :=
  SampleVectorIterator.create samples.counts samples.bucketRanges

def increaseCount (samples : SampleVector) (index : Nat) (count : Int) : SampleVector :=
  { samples with counts := samples.counts.modify index (fun c => int32 (c + count)) }

@[simp]
theorem length_increaseCount (samples : SampleVector) (index : Nat) (count : Int)
    : (samples.increaseCount index count).counts.length = samples.counts.length :=
  List.length_modify _ _ _

-- What the loop returns from bucket `index` on, with the samples afterwards
def addSubtractImpl (op : Operator) (samples : SampleVector) (index : Nat)
    (iter : SampleVectorIterator) : Bool × SampleVector :=
  if hmore : index < samples.counts.length ∧ iter.done = false then
    let (min, max, count) := iter.get hmore.2
    if min = samples.bucketRanges.range index ∧ max = samples.bucketRanges.range (index + 1) then
      addSubtractImpl op (samples.increaseCount index (op.apply count)) index (iter.next hmore.2)
    else if min > samples.bucketRanges.range index then
      addSubtractImpl op samples (index + 1) iter
    else
      (false, samples)
  else
    (iter.done, samples)
termination_by (samples.counts.length - index) + (iter.counts.length - iter.index)
decreasing_by
  . have := SampleVectorIterator.index_lt hmore.2
    have := SampleVectorIterator.index_lt_next hmore.2
    rw [length_increaseCount]
    show _ + ((iter.next hmore.2).counts.length - _) < _
    unfold SampleVectorIterator.next SampleVectorIterator.startingAt at *
    dsimp only at *
    omega
  . omega

def addSubtract (op : Operator) (samples other : SampleVector) : Except CheckFailure SampleVector := do
  let samples := samples.increaseSum (op.apply other.sum)
  let iter ← other.iterator
  let (success, samples) := addSubtractImpl op samples 0 iter
  check .success success
  return samples

def add (samples other : SampleVector) : Except CheckFailure SampleVector :=
  addSubtract .add samples other

def subtract (samples other : SampleVector) : Except CheckFailure SampleVector :=
  addSubtract .subtract samples other

end SampleVector

def Histogram.snapshotSampleVector (h : Histogram) : Except CheckFailure SampleVector := do
  let samples ← SampleVector.create h.bucketRanges
  samples.add h.samples

end Claire
