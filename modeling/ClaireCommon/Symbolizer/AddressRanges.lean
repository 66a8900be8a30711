import ClaireCommon.Symbolizer.Impl.Dwarf
import ClaireCommon.Symbolizer.LineProgram

/-!
This module contains the address ranges of DWARF 2 for a 64 bit target: the sets of `.debug_aranges`
with their encoding, and what it means that a set contains an address.
-/

namespace Claire
namespace Dwarf

open Bytes

structure AddressRange where
  start : Nat
  length : Nat
  start_lt : start < 2 ^ 64
  length_lt : length < 2 ^ 64
  -- Two zeros end the set.
  not_terminator : ¬(start = 0 ∧ length = 0)

namespace AddressRange

def Contains (range : AddressRange) (address : Nat) : Prop :=
  range.start ≤ address ∧ address < range.start + range.length

def encode (start length : Nat) : List UInt8 :=
  toLittleEndian 8 start ++ toLittleEndian 8 length

def encodeAll : List AddressRange → List UInt8
  | [] => encode 0 0
  | range :: ranges => encode range.start range.length ++ encodeAll ranges

@[simp]
theorem length_encode (start length : Nat) : (encode start length).length = 16 := by
  simp [encode]

theorem length_encodeAll (ranges : List AddressRange)
    : (encodeAll ranges).length = 16 * (ranges.length + 1) := by
  induction ranges with
  | nil => rfl
  | cons range ranges ih =>
    rw [encodeAll, List.length_append, length_encode, ih, List.length_cons]
    omega

end AddressRange

structure AddressRangeSet where
  is64Bits : Bool
  debugInfoOffset : Nat
  padding : List UInt8
  ranges : List AddressRange
  debugInfoOffset_lt : debugInfoOffset < 256 ^ offsetSize is64Bits
  -- The ranges start at a multiple of their size.
  padding_length : padding.length = if is64Bits then 8 else 4
  unitLength_lt : 2 + offsetSize is64Bits + 2 + padding.length + 16 * (ranges.length + 1)
    < if is64Bits then 2 ^ 64 else 2 ^ 32 - 1

namespace AddressRangeSet

variable (set : AddressRangeSet)

def Contains (address : Nat) : Prop := ∃ range ∈ set.ranges, range.Contains address

def unitLength : Nat :=
  2 + offsetSize set.is64Bits + 2 + set.padding.length + 16 * (set.ranges.length + 1)

-- The version, the offset in `.debug_info`, and the sizes of an address and of a segment selector
def header : List UInt8 :=
  toLittleEndian 2 2 ++ (toLittleEndian (offsetSize set.is64Bits) set.debugInfoOffset
    ++ (toLittleEndian 1 8 ++ toLittleEndian 1 0))

def encode : List UInt8 :=
  initialLength set.is64Bits set.unitLength
    ++ (set.header ++ (set.padding ++ AddressRange.encodeAll set.ranges))

def encodeAll (sets : List AddressRangeSet) : List UInt8 := sets.flatMap encode

@[simp]
theorem length_header : set.header.length = 4 + offsetSize set.is64Bits := by
  simp [header]
  omega

theorem length_initialLength (is64Bits : Bool) (length : Nat)
    : (initialLength is64Bits length).length = if is64Bits then 12 else 4 := by
  cases is64Bits <;> simp [initialLength]

theorem length_encode
    : set.encode.length
        = (initialLength set.is64Bits set.unitLength).length + set.unitLength := by
  simp only [encode, List.length_append, length_header, AddressRange.length_encodeAll, unitLength]
  omega

theorem length_encode_emod : set.encode.length % 16 = 0 := by
  have hpadding := set.padding_length
  rw [length_encode, length_initialLength, unitLength]
  cases hbits : set.is64Bits <;> simp [hbits, offsetSize] at * <;> omega

end AddressRangeSet
end Dwarf
end Claire
