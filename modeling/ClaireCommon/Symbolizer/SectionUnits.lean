import ClaireCommon.Symbolizer.LineProgram

/-!
This module contains the byte strings that a sequence of units with initial lengths can start with, and
what is left of them behind the last complete unit.
-/

namespace Claire
namespace Dwarf

open Bytes

def lengthBound (is64Bits : Bool) : Nat := if is64Bits then 2 ^ 64 else 2 ^ 32 - 1

structure SectionUnit where
  is64Bits : Bool
  body : List UInt8
  length_lt : body.length < lengthBound is64Bits

namespace SectionUnit

def header (unit : SectionUnit) : List UInt8 := initialLength unit.is64Bits unit.body.length

def encode (unit : SectionUnit) : List UInt8 := unit.header ++ unit.body

def encodeAll (units : List SectionUnit) : List UInt8 := units.flatMap encode

theorem encodeAll_cons (unit : SectionUnit) (units : List SectionUnit)
    : encodeAll (unit :: units) = unit.encode ++ encodeAll units := List.flatMap_cons

def bodies (p : Ptr) : List SectionUnit → List StringPiece
  | [] => []
  | unit :: units => ⟨p.add unit.header.length, unit.body.length⟩ :: bodies (p.add unit.encode.length) units

end SectionUnit

-- The unit ends behind the last byte, by less than the size of its header or in the header itself.
inductive Overrun : List UInt8 → Prop
  | length {is64Bits : Bool} {length : Nat} {rest : List UInt8} (hlt : length < lengthBound is64Bits)
      (hlong : rest.length < length)
      (hclose : length ≤ rest.length + (initialLength is64Bits length).length)
      : Overrun (initialLength is64Bits length ++ rest)
  | header {rest : List UInt8} (hfour : 4 ≤ rest.length) (height : rest.length < 8)
      : Overrun (toLittleEndian 4 (2 ^ 32 - 1) ++ rest)

def Overruns (bytes : List UInt8) : Prop :=
  ∃ units rest, bytes = SectionUnit.encodeAll units ++ rest ∧ Overrun rest

-- Fewer bytes than a unit needs in every other way
inductive Truncated : List UInt8 → Prop
  | initial {bytes : List UInt8} (hne : bytes ≠ []) (hfour : bytes.length < 4) : Truncated bytes
  | header {rest : List UInt8} (hfour : rest.length < 4)
      : Truncated (toLittleEndian 4 (2 ^ 32 - 1) ++ rest)
  | length {is64Bits : Bool} {length : Nat} {rest : List UInt8} (hlt : length < lengthBound is64Bits)
      (hlong : rest.length + (initialLength is64Bits length).length < length)
      : Truncated (initialLength is64Bits length ++ rest)

def StartsWithUnit (bytes : List UInt8) : Prop :=
  ∃ (unit : SectionUnit) (rest : List UInt8), bytes = unit.encode ++ rest

theorem initialLength_cases {is64Bits : Bool} {length : Nat} (rest : List UInt8)
    (hlt : length < lengthBound is64Bits)
    : StartsWithUnit (initialLength is64Bits length ++ rest) ∨
      Overrun (initialLength is64Bits length ++ rest) ∨
      Truncated (initialLength is64Bits length ++ rest) := by
  by_cases hfits : length ≤ rest.length
  . have hbody : (rest.take length).length = length := List.length_take_of_le hfits
    let unit : SectionUnit := ⟨is64Bits, rest.take length, by rw [hbody]; apply hlt⟩
    apply Or.inl
    refine ⟨unit, rest.drop length, ?_⟩
    unfold SectionUnit.encode SectionUnit.header
    rw [List.append_assoc, List.take_append_drop, hbody]
  . by_cases hclose : length ≤ rest.length + (initialLength is64Bits length).length
    . apply Or.inr
      apply Or.inl
      apply Overrun.length hlt (by omega) hclose
    . apply Or.inr
      apply Or.inr
      apply Truncated.length hlt
      omega

theorem bytes_cases (bytes : List UInt8)
    : bytes = [] ∨ StartsWithUnit bytes ∨ Overrun bytes ∨ Truncated bytes := by
  by_cases hne : bytes = []
  . apply Or.inl hne
  . apply Or.inr
    by_cases hfour : bytes.length < 4
    . apply Or.inr
      apply Or.inr
      apply Truncated.initial hne hfour
    . have hlength : (bytes.take 4).length = 4 := List.length_take_of_le (by omega)
      have hbound := littleEndian_lt (bytes.take 4)
      have hinitial := toLittleEndian_littleEndian (bytes.take 4)
      rw [hlength] at hbound hinitial
      have hsplit := List.take_append_drop 4 bytes
      generalize littleEndian (bytes.take 4) = length at *
      generalize bytes.drop 4 = rest at *
      rw [← hsplit, ← hinitial]
      by_cases his64 : length = 2 ^ 32 - 1
      . rw [his64]
        by_cases hheader : rest.length < 8
        . by_cases hrest : rest.length < 4
          . apply Or.inr
            apply Or.inr
            apply Truncated.header hrest
          . apply Or.inr
            apply Or.inl
            apply Overrun.header (by omega) hheader
        . have hlength8 : (rest.take 8).length = 8 := List.length_take_of_le (by omega)
          have hbound8 := littleEndian_lt (rest.take 8)
          have hinitial8 := toLittleEndian_littleEndian (rest.take 8)
          rw [hlength8] at hbound8 hinitial8
          have hcases := @initialLength_cases true _ (rest.drop 8) hbound8
          unfold initialLength at hcases
          rw [if_pos rfl, hinitial8, List.append_assoc, List.take_append_drop] at hcases
          apply hcases
      . apply @initialLength_cases false length rest
        unfold lengthBound
        simp at hbound ⊢
        omega

theorem overruns_append {unit : SectionUnit} {rest : List UInt8} (h : Overruns rest)
    : Overruns (unit.encode ++ rest) := by
  have ⟨units, tail, heq, htail⟩ := h
  refine ⟨unit :: units, tail, ?_, htail⟩
  rw [heq, SectionUnit.encodeAll_cons, List.append_assoc]

end Dwarf
end Claire
