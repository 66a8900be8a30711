import ClaireCommon.Lib.Floating
import ClaireCommon.Metrics.Impl.HistogramRecorder
import ClaireCommon.Metrics.Impl.WriteJSON

/-!
This module contains the construction of histograms: `FactoryGet` with the ranges that it computes in
floating point, and the function that validates the arguments for it.

`math` is the floating point arithmetic of the machine and its library, `π` the type of the pointers
to histograms.
-/

namespace Claire

namespace BucketRanges

-- If there is no range, because `num_ranges` has wrapped around, then the first `set_range` fails.
def create (numRanges : Nat) : Except CheckFailure BucketRanges :=
  if h : 0 < numRanges then
    .ok { ranges := List.replicate numRanges 0, size_pos := by rw [List.length_replicate]; exact h }
  else
    .error .rangeIndexLtSize

def setRange (r : BucketRanges) (i : Nat) (value : Int) : Except CheckFailure BucketRanges := do
  check .rangeIndexLtSize (i < r.ranges.length)
  check .valueGtZero (value > 0)
  return { ranges := r.ranges.set i value, size_pos := by rw [List.length_set]; exact r.size_pos }

end BucketRanges

namespace Histogram

def kBucketCountMax : Nat := 16384

-- The arguments are those that the function leaves behind.
def inspectConstructionArguments (minimum maximum : Int) (bucketCount : Nat) : Bool × Int × Int × Nat :=
  let minimum := if minimum < 1 then 1 else minimum
  let maximum := if maximum ≥ kSampleTypeMax then kSampleTypeMax - 1 else maximum
  let bucketCount := if bucketCount ≥ kBucketCountMax then kBucketCountMax - 1 else bucketCount
  let valid :=
    if minimum ≥ maximum then false
    else if bucketCount < 3 then false
    else if bucketCount > sizeT (int32 (maximum - minimum + 2)) then false
    else true
  (valid, minimum, maximum, bucketCount)

section Ranges

variable {F : Type} (math : Floating F)

-- The range behind `current` when `remaining` of them are still to be set
def nextRange (logMax : F) (current : Int) (remaining : Nat) : Int :=
  let logCurrent := math.log (math.ofInt current)
  let logRatio := math.div (math.sub logMax logCurrent) (math.ofInt remaining)
  let logNext := math.add logCurrent logRatio
  let next := math.toInt (math.floor (math.add (math.exp logNext) math.half))
  if next > current then next else int32 (current + 1)

def setRanges (logMax : F) (bucketCount bucketIndex : Nat) (current : Int) (ranges : BucketRanges)
    : Except CheckFailure BucketRanges :=
  let bucketIndex' := bucketIndex + 1
  if bucketCount > bucketIndex' then do
    let current := nextRange math logMax current (bucketCount - bucketIndex')
    let ranges ← ranges.setRange bucketIndex' current
    setRanges logMax bucketCount bucketIndex' current ranges
  else
    .ok ranges
termination_by bucketCount - bucketIndex

def initializeBucketRanges (minimum maximum : Int) (ranges : BucketRanges)
    : Except CheckFailure BucketRanges := do
  let logMax := math.log (math.ofInt maximum)
  let bucketIndex := 1
  let current := minimum
  let ranges ← ranges.setRange bucketIndex current
  let ranges ← setRanges math logMax ranges.bucketCount bucketIndex current ranges
  ranges.setRange ranges.bucketCount kSampleTypeMax

end Ranges
end Histogram

namespace DeclaredHistogram

variable {F : Type} (math : Floating F)

def create (name : String) (minimum maximum : Int) (bucketCount : Nat)
    : Except CheckFailure DeclaredHistogram := do
  let ranges ← BucketRanges.create (sizeT (bucketCount + 1)).toNat
  let ranges ← Histogram.initializeBucketRanges math minimum maximum ranges
  let histogram ← Histogram.create ranges
  return {
    toHistogram := histogram
    histogramName := key name
    declaredMin := minimum
    declaredMax := maximum
  }

variable {π : Type} [DecidableEq π]

-- `pointer` is the one of `new`. The histograms that live are those of `heap`.
def factoryGet (recorder : HistogramRecorder π) (heap : π → Option DeclaredHistogram) (pointer : π)
    (name : String) (minimum maximum : Int) (bucketCount : Nat)
    : Except CheckFailure (π × HistogramRecorder π × (π → Option DeclaredHistogram)) :=
  match recorder.findHistogram name with
  | some histogram => .ok (histogram, recorder, heap)
  | none => do
    let tentativeHistogram ← create math name minimum maximum bucketCount
    let heap := Function.update heap pointer (some tentativeHistogram)
    let (toReturn, toDelete, recorder) := recorder.registerOrDeleteDuplicate name pointer
    let heap :=
      match toDelete with
      | some toDelete => Function.update heap toDelete none
      | none => heap
    return (toReturn, recorder, heap)

end DeclaredHistogram
end Claire
