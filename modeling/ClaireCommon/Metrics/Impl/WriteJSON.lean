import ClaireCommon.Metrics.Impl.SampleVector
import ClaireCommon.Protobuf.Impl.Json
import ClaireCommon.Strings.Impl.UriEscape

/-!
This module contains the document that `WriteJSON` gives to the writer.
-/

namespace Claire

open Protobuf (Json JsonInteger)

structure Toolchain where
  asserts : Bool
  -- A copy of a `std::string` shares the bytes of the original.
  sharesCopies : Bool

structure DeclaredHistogram extends Histogram where
  histogramName : List UInt8
  declaredMin : Int
  declaredMax : Int

namespace DeclaredHistogram

variable (toolchain : Toolchain)

def key (name : String) : List UInt8 := name.toList.map byteOf

def ofInt (n : Int) : Json := .number (.ofInt32 (.ofInt n))

-- `StringRef` of a `const char*`, the bytes can be gone when the document is written.
def stringRef (gone : Bool) (s : List UInt8) : Json :=
  if gone ∧ cString s ≠ [] then .dangling else .string (cString s)

-- Without the assertion a value keeps its type, and one that is no object has no members.
def addMember (value : Json) (name : String) (member : Json) : Except CheckFailure Json :=
  match value with
  | .object members => .ok (.object (members ++ [(key name, member)]))
  | _ => if toolchain.asserts then .error .isObject else .ok value

def addBounds (h : DeclaredHistogram) (bucketValue : Json) (i : Nat) (count : Int)
    : Except CheckFailure Json :=
  if i ≠ h.bucketCount - 1 then do
    let bucketValue ← addMember toolchain bucketValue "high" (ofInt (h.ranges (i + 1)))
    addMember toolchain bucketValue "count" (ofInt count)
  else
    .ok bucketValue

def writeBucket (h : DeclaredHistogram) (snapshot : SampleVector) (buckets : List Json) (i : Nat)
    : Except CheckFailure (List Json) := do
  let count ← snapshot.getCountAtIndex i
  if count > 0 then
    let bucketValue := Json.null
    let bucketValue ← addMember toolchain bucketValue "low" (ofInt (h.ranges i))
    let bucketValue ← addBounds toolchain h bucketValue i count
    return buckets ++ [bucketValue]
  else
    return buckets

def type : String := "Histogram"

def writeJSON (h : DeclaredHistogram) : Except CheckFailure Json := do
  let doc := Json.object []
  let doc ← addMember toolchain doc "name" (stringRef (!toolchain.sharesCopies) h.histogramName)
  let snapshot ← h.snapshotSampleVector
  let doc ← addMember toolchain doc "count" (ofInt snapshot.totalCount)
  let doc ← addMember toolchain doc "sum" (.number (.ofInt64 (.ofInt snapshot.sum)))
  let doc ← addMember toolchain doc "type" (stringRef true (key type))
  let doc ← addMember toolchain doc "min" (ofInt h.declaredMin)
  let doc ← addMember toolchain doc "max" (ofInt h.declaredMax)
  let doc ← addMember toolchain doc "bucket_count" (.number (.ofUInt64 (.ofNat h.bucketCount)))
  let buckets ← (List.range h.bucketCount).foldlM (writeBucket toolchain h snapshot) []
  addMember toolchain doc "buckets" (.array buckets)

end DeclaredHistogram
end Claire
