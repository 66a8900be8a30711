import ClaireCommon.Lib.Floating
import ClaireCommon.Lib.Traced
import ClaireCommon.Metrics.Impl.WriteJSON

/-!
This module contains the graphical display of a histogram. A call that writes to the output returns the
output behind it. The calls that draw a bucket and those that write its numbers are logged with their
arguments.
-/

namespace Claire

-- What the display needs of the type `double`
structure Doubles (F : Type) extends Floating F where
  mul : F → F → F
  lt : F → F → Bool
  -- `%.1f`, padded to the width
  format : Nat → F → List UInt8

inductive DisplayCall (F : Type) where
  | graph (currentSize maxSize : F)
  | context (past current remaining : Int) (i : Nat)
  deriving DecidableEq, Repr

abbrev Display (F : Type) := Traced CheckFailure (DisplayCall F)

namespace DeclaredHistogram

variable {F : Type} (doubles : Doubles F) (h : DeclaredHistogram)

def decimal (n : Int) : List UInt8 := key (toString n)

def countAt (snapshot : SampleVector) (i : Nat) : Display F Int :=
  Traced.ofExcept (snapshot.getCountAtIndex i)

def dcheck (failure : CheckFailure) (condition : Bool) : Display F Unit :=
  Traced.ofExcept (check failure condition)

def printEmptyBucket (_ : Nat) : Bool := true

def getBucketSize (current : Int) (i : Nat) : Display F F := do
  dcheck .rangeBehindGtRange (h.ranges (i + 1) > h.ranges i)
  let kTransitionWidth := doubles.ofInt 5
  let denominator := doubles.ofInt (int32 (h.ranges (i + 1) - h.ranges i))
  let denominator := if doubles.lt kTransitionWidth denominator then kTransitionWidth else denominator
  return doubles.div (doubles.ofInt current) denominator

def getAsciiBucketRange (i : Nat) : List UInt8 := decimal (h.ranges i)

def writeAsciiBucketGraph (currentSize maxSize : F) (output : List UInt8) : Display F (List UInt8) := do
  Traced.emit (.graph currentSize maxSize)
  let kLineLength : Int := 72
  let xCount := doubles.toInt (doubles.add
    (doubles.mul (doubles.ofInt kLineLength) (doubles.div currentSize maxSize)) doubles.half)
  let xRemainder := int32 (kLineLength - xCount)
  return output ++ List.replicate xCount.toNat (byteOf '-') ++ key "O"
    ++ List.replicate xRemainder.toNat (byteOf ' ')

def writeAsciiBucketValue (current : Int) (scaledSum : F) (output : List UInt8) : List UInt8 :=
  output ++ key " (" ++ decimal current ++ key " = "
    ++ doubles.format 3 (doubles.div (doubles.ofInt current) scaledSum) ++ key "%)"

def writeAsciiBucketContext (past current remaining : Int) (i : Nat) (output : List UInt8)
    : Display F (List UInt8) := do
  Traced.emit (.context past current remaining i)
  let scaledSum := doubles.div
    (doubles.ofInt (int64 (int64 (past + current) + remaining))) (doubles.ofInt 100)
  let output := writeAsciiBucketValue doubles current scaledSum output
  if 0 < i then
    let percentage := doubles.div (doubles.ofInt past) scaledSum
    return output ++ key " \x7b" ++ doubles.format 3 percentage ++ key "%\x7d"
  else
    return output

def writeAsciiHeader (samples : SampleVector) (sampleCount : Int) (output : List UInt8)
    : Display F (List UInt8) := do
  let output := output ++ key "Histogram: " ++ cString h.histogramName ++ key " recorded "
    ++ decimal sampleCount ++ key " samples"
  if sampleCount = 0 then
    dcheck .sumEqZero (samples.sum = 0)
    return output
  else
    let average := doubles.div (doubles.ofInt samples.sum) (doubles.ofInt sampleCount)
    return output ++ key ", average = " ++ doubles.format 0 average

def greaterSize (samples : SampleVector) (max : F) (i : Nat) : Display F F := do
  let current ← countAt samples i
  let currentSize ← getBucketSize doubles h current i
  return if doubles.lt max currentSize then currentSize else max

def getPeakBucketSize (samples : SampleVector) : Display F F :=
  (List.range h.bucketCount).foldlM (greaterSize doubles h samples) (doubles.ofInt 0)

def peakBucketSize (samples : SampleVector) (graphIt : Bool) : Display F F :=
  if graphIt then getPeakBucketSize doubles h samples else pure (doubles.ofInt 0)

-- The search starts at the last bucket.
def largestNonEmptyBucket (snapshot : SampleVector) : Nat → Display F Nat
  | 0 => do
    let _ ← countAt snapshot 0
    return 0
  | i + 1 => do
    let count ← countAt snapshot (i + 1)
    if count = 0 then largestNonEmptyBucket snapshot i else return i + 1

def widenPrint (snapshot : SampleVector) (printWidth : Nat) (i : Nat) : Display F Nat := do
  let count ← countAt snapshot i
  if count ≠ 0 then
    let width := (h.getAsciiBucketRange i).length + 1
    return if width > printWidth then width else printWidth
  else
    return printWidth

def writeAsciiBucketRange (i printWidth : Nat) (output : List UInt8) : List UInt8 :=
  let range := h.getAsciiBucketRange i
  output ++ range ++ List.replicate (printWidth + 1 - range.length) (byteOf ' ')

-- `i < bucket_count() - 1 && 0 == snapshot->GetCountAtIndex(i + 1)`
def emptyBehind (snapshot : SampleVector) (i : Nat) : Display F Bool :=
  if i < h.bucketCount - 1 then do
    let next ← countAt snapshot (i + 1)
    return next = 0
  else
    return false

def beginsRun (snapshot : SampleVector) (current : Int) (i : Nat) : Display F Bool :=
  if current = 0 then emptyBehind h snapshot i else pure false

-- How often the inner loop increments `i`
def skipEmptyBehind (snapshot : SampleVector) (i : Nat) : Display F Nat :=
  if i < h.bucketCount then do
    if ← emptyBehind h snapshot i then
      let skipped ← skipEmptyBehind snapshot (i + 1)
      return skipped + 1
    else
      return 0
  else
    return 0
termination_by h.bucketCount - i

-- The bucket `i` and the numbers behind its graph
def writeAsciiBucket (graphIt : Bool) (maxSize : F) (past current remaining : Int) (i : Nat)
    (output : List UInt8) : Display F (List UInt8) := do
  let currentSize ← getBucketSize doubles h current i
  let output ← if graphIt then writeAsciiBucketGraph doubles currentSize maxSize output else pure output
  writeAsciiBucketContext doubles past current remaining i output

-- The loop over the buckets, and the check behind it
def writeAsciiBuckets (graphIt : Bool) (newline : List UInt8) (snapshot : SampleVector)
    (sampleCount : Int) (maxSize : F) (printWidth i : Nat) (past remaining : Int)
    (output : List UInt8) : Display F (List UInt8) :=
  if i < h.bucketCount then do
    let current ← countAt snapshot i
    if current = 0 ∧ !printEmptyBucket i then
      writeAsciiBuckets graphIt newline snapshot sampleCount maxSize printWidth (i + 1) past remaining
        output
    else
      let remaining := int64 (remaining - current)
      let output := h.writeAsciiBucketRange i printWidth output
      if ← beginsRun h snapshot current i then
        let skipped ← skipEmptyBehind h snapshot i
        writeAsciiBuckets graphIt newline snapshot sampleCount maxSize printWidth (i + skipped + 1) past
          remaining (output ++ key "... " ++ newline)
      else
        let output ← writeAsciiBucket doubles h graphIt maxSize past current remaining i output
        writeAsciiBuckets graphIt newline snapshot sampleCount maxSize printWidth (i + 1)
          (int64 (past + current)) remaining (output ++ newline)
  else do
    dcheck .sampleCountEqPast (sampleCount = past)
    return output
termination_by h.bucketCount - i

def writeAsciiImpl (graphIt : Bool) (newline output : List UInt8) : Display F (List UInt8) := do
  let snapshot ← Traced.ofExcept h.snapshotSampleVector
  let sampleCount := snapshot.totalCount
  let output ← writeAsciiHeader doubles h snapshot sampleCount output
  let output := output ++ newline
  let maxSize ← peakBucketSize doubles h snapshot graphIt
  let _ ← largestNonEmptyBucket snapshot (h.bucketCount - 1)
  let printWidth ← (List.range h.bucketCount).foldlM (widenPrint h snapshot) 1
  writeAsciiBuckets doubles h graphIt newline snapshot sampleCount maxSize printWidth 0 0 sampleCount
    output

end DeclaredHistogram
end Claire
