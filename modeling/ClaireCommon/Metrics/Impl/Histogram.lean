import ClaireCommon.Base.Types

/-!
This module contains histograms: the recording of samples in the buckets of a `SampleVector`.

Every `CHECK` and `DCHECK` of the recorded path is executed, a failure ends the call with the check
that failed. An access behind the end of `ranges` or `counts` has no meaning in the source and none
occurs, the model reads 0 there.
-/

namespace Claire

namespace Histogram

def kSampleTypeMax : Int := intMax

end Histogram

inductive CheckFailure where
  | bucketCountGeOne
  | valueGeFirstRange
  | valueLtLastRange
  | overGeUnder
  | rangeOfMidLeValue
  | rangeBehindMidGtValue
  | bucketIndexLtSize
  | firstRangeEqZero
  | lastRangeEqMax
  | bucketCountGeSize
  | rangeIndexLtSize
  | valueGtZero
  | success
  | rangeBehindGtRange
  | sumEqZero
  | sampleCountEqPast
  | isObject
  deriving DecidableEq, Repr

def check (failure : CheckFailure) (condition : Bool) : Except CheckFailure Unit :=
  if condition then .ok () else .error failure

structure BucketRanges where
  ranges : List Int
  size_pos : 0 < ranges.length

namespace BucketRanges

def range (r : BucketRanges) (i : Nat) : Int := r.ranges.getD i 0

def bucketCount (r : BucketRanges) : Nat := r.ranges.length - 1

end BucketRanges

structure SampleVector where
  counts : List Int
  bucketRanges : BucketRanges
  sum : Int

namespace SampleVector

def create (ranges : BucketRanges) : Except CheckFailure SampleVector := do
  check .bucketCountGeOne (ranges.bucketCount ≥ 1)
  return {
    counts := List.replicate ranges.bucketCount 0
    bucketRanges := ranges
    sum := 0
  }

-- The do-while loop of `GetBucketIndex`
def searchBucket (ranges : BucketRanges) (value : Int) (bucketUnder bucketOver : Nat)
    : Except CheckFailure Nat :=
  if bucketOver < bucketUnder then
    .error .overGeUnder
  else
    let mid := bucketUnder + (bucketOver - bucketUnder) / 2
    if mid = bucketUnder then
      .ok mid
    else if ranges.range mid ≤ value then
      searchBucket ranges value mid bucketOver
    else
      searchBucket ranges value bucketUnder mid
termination_by bucketOver - bucketUnder

def getBucketIndex (samples : SampleVector) (value : Int) : Except CheckFailure Nat := do
  let bucketRanges := samples.bucketRanges
  let bucketCount := bucketRanges.bucketCount
  check .bucketCountGeOne (bucketCount ≥ 1)
  check .valueGeFirstRange (value ≥ bucketRanges.range 0)
  check .valueLtLastRange (value < bucketRanges.range bucketCount)
  let mid ← searchBucket bucketRanges value 0 bucketCount
  check .rangeOfMidLeValue (bucketRanges.range mid ≤ value)
  check .rangeBehindMidGtValue (bucketRanges.range (mid + 1) > value)
  return mid

def increaseSum (samples : SampleVector) (diff : Int) : SampleVector :=
  { samples with sum := int64 (samples.sum + diff) }

def accumulate (samples : SampleVector) (value count : Int) : Except CheckFailure SampleVector := do
  let bucketIndex ← samples.getBucketIndex value
  let counts := samples.counts.modify bucketIndex (fun c => int32 (c + 1))
  return { samples with counts := counts }.increaseSum (int32 (count * value))

def getCount (samples : SampleVector) (value : Int) : Except CheckFailure Int := do
  let bucketIndex ← samples.getBucketIndex value
  return samples.counts.getD bucketIndex 0

def totalCount (samples : SampleVector) : Int :=
  samples.counts.foldl (fun count c => int32 (count + c)) 0

def getCountAtIndex (samples : SampleVector) (bucketIndex : Nat) : Except CheckFailure Int := do
  check .bucketIndexLtSize (bucketIndex < samples.counts.length)
  return samples.counts.getD bucketIndex 0

end SampleVector

structure Histogram where
  bucketRanges : BucketRanges
  samples : SampleVector

namespace Histogram

def create (ranges : BucketRanges) : Except CheckFailure Histogram := do
  let samples ← SampleVector.create ranges
  return { bucketRanges := ranges, samples := samples }

def ranges (h : Histogram) (i : Nat) : Int := h.bucketRanges.range i

def bucketCount (h : Histogram) : Nat := h.bucketRanges.bucketCount

def clamp (value : Int) : Int :=
  let value := if value ≥ kSampleTypeMax then kSampleTypeMax - 1 else value
  if value < 0 then 0 else value

def add (h : Histogram) (value : Int) : Except CheckFailure Histogram := do
  check .firstRangeEqZero (0 = h.ranges 0)
  check .lastRangeEqMax (kSampleTypeMax = h.ranges h.bucketCount)
  let samples ← h.samples.accumulate (clamp value) 1
  return { h with samples := samples }

end Histogram
end Claire
