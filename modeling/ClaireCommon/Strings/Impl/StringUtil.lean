import Mathlib.Data.Int.Order.Basic
import ClaireCommon.Base.Types
import ClaireCommon.Lib.Memory
import ClaireCommon.Lib.Numeral

/-!
This module contains the functions that format integers and bytes into a buffer. A pointer into the
buffer is an address of the memory.
-/

namespace Claire

-- The types `IntToBuffer` is instantiated for. A `char` has a sign.
inductive IntType where
  | char
  | short
  | unsignedShort
  | int
  | unsignedInt
  | long
  | unsignedLong
  | longLong
  | unsignedLongLong
  deriving DecidableEq, Repr

namespace IntType

def bits : IntType → Nat
  | char => 8
  | short | unsignedShort => 16
  | int | unsignedInt => 32
  | long | unsignedLong | longLong | unsignedLongLong => 64

def isSigned : IntType → Bool
  | char | short | int | long | longLong => true
  | unsignedShort | unsignedInt | unsignedLong | unsignedLongLong => false

def min (t : IntType) : Int := if t.isSigned then -2 ^ (t.bits - 1) else 0

def max (t : IntType) : Int := if t.isSigned then 2 ^ (t.bits - 1) - 1 else 2 ^ t.bits - 1

theorem min_nonpos (t : IntType) : t.min ≤ 0 := by cases t <;> decide

theorem max_nonneg (t : IntType) : 0 ≤ t.max := by cases t <;> decide

structure Value (t : IntType) where
  val : Int
  min_le : t.min ≤ val
  le_max : val ≤ t.max

-- The quotient is not larger than the dividend, so that it has the same type.
theorem tdiv_range {t : IntType} (value : t.Value) (base : Nat)
    : t.min ≤ value.val.tdiv base ∧ value.val.tdiv base ≤ t.max := by
  have hmin := value.min_le
  have hmax := value.le_max
  have hmin' := t.min_nonpos
  have hmax' := t.max_nonneg
  have hle := Int.natAbs_tdiv_le_natAbs value.val base
  cases Int.le_total 0 value.val with
  | inl hnonneg =>
    have := Int.tdiv_nonneg hnonneg (Int.natCast_nonneg base)
    omega
  | inr hnonpos =>
    have := Int.tdiv_nonneg (Int.neg_nonneg_of_nonpos hnonpos) (Int.natCast_nonneg base)
    rw [Int.neg_tdiv] at this
    omega

def Value.div {t : IntType} (value : t.Value) (base : Nat) : t.Value where
  val := value.val.tdiv base
  min_le := (tdiv_range value base).1
  le_max := (tdiv_range value base).2

def Value.mod {t : IntType} (value : t.Value) (base : Nat) : Int := value.val.tmod base

theorem Value.natAbs_div {t : IntType} (value : t.Value) (base : Nat)
    : (value.div base).val.natAbs = value.val.natAbs / base :=
  Int.natAbs_tdiv value.val base

end IntType

-- The decimal digits on both sides of `zero`
def digits : List UInt8 :=
  ['9', '8', '7', '6', '5', '4', '3', '2', '1', '0', '1', '2', '3', '4', '5', '6', '7', '8', '9'].map
    Char.toUInt8

def zero (lsd : Int) : UInt8 := digits.getD (9 + lsd).toNat 0

def digitsHex : List UInt8 :=
  ['0', '1', '2', '3', '4', '5', '6', '7', '8', '9', 'A', 'B', 'C', 'D', 'E', 'F'].map Char.toUInt8

def digitHex (lsd : Int) : UInt8 := digitsHex.getD lsd.toNat 0

def minus : UInt8 := 0x2d

-- `do { ... } while (i != 0)` of both functions
def emitDigits {t : IntType} (base : Nat) (hbase : 1 < base) (digit : Int → UInt8) (m : Memory)
    (p : Nat) (i : t.Value) : Memory × Nat :=
  let lsd := i.mod base
  let m := m.write p (digit lsd)
  if _h : (i.div base).val ≠ 0 then
    emitDigits base hbase digit m (p + 1) (i.div base)
  else
    (m, p + 1)
termination_by i.val.natAbs
decreasing_by
  have hdiv := i.natAbs_div base
  have hne : i.val.natAbs ≠ 0 := by
    intro hzero
    rw [hzero, Nat.zero_div] at hdiv
    omega
  rw [hdiv]
  exact Nat.div_lt_self (Nat.pos_of_ne_zero hne) hbase

def intToBuffer {t : IntType} (m : Memory) (buffer : Nat) (value : t.Value) : Memory × Nat :=
  let (m, p) := emitDigits 10 (by decide) zero m buffer value
  let (m, p) := if value.val < 0 then (m.write p minus, p + 1) else (m, p)
  let m := m.write p 0
  (m.reverse buffer p, p - buffer)

-- `uintptr_t` is an `unsigned long`.
def hexToBuffer (m : Memory) (buffer : Nat) (value : IntType.unsignedLong.Value) : Memory × Nat :=
  let (m, p) := emitDigits 16 (by decide) digitHex m buffer value
  let m := m.write p 0
  (m.reverse buffer p, p - buffer)

-- What `snprintf` is asked for is cut off to `size`, the zero included. It returns the whole length.
def snprintf (p size : Nat) (text : List UInt8) : StateM Memory Int := do
  if size ≠ 0 then
    modify fun m => m.copy p (text.take (size - 1) ++ [0])
  return text.length

def lowerHexChar (d : Nat) : UInt8 :=
  if d < 10 then UInt8.ofNat (0x30 + d) else UInt8.ofNat (0x61 + (d - 10))

-- `%0*x`
def paddedHex (width n : Nat) : List UInt8 :=
  let text := (Numeral.numeral 16 n).map lowerHexChar
  List.replicate (width - text.length) 0x30 ++ text

def offsetText (i : Nat) : List UInt8 := [0x0a, 0x30, 0x78] ++ paddedHex 4 i ++ [0x3a]

-- The loop of `HexString`, an exception is the `current_length` at a `break`.
abbrev Dump := ExceptT Nat (StateM Memory)

variable (buffer bufferLength : Nat)

def dumpText (text : List UInt8) (currentLength : Nat) : Dump Nat := do
  let remaining := sizeT (bufferLength - currentLength)
  let ret ← snprintf (buffer + currentLength) remaining.toNat text
  if ret < 0 ∨ ret > int32 remaining then
    throw currentLength
  return currentLength + ret.toNat

def dumpByte (i : Nat) (c : UInt8) (currentLength : Nat) : Dump Nat := do
  let currentLength ←
    if i % 16 = 0 then dumpText buffer bufferLength (offsetText (i % 2 ^ 32)) currentLength
    else pure currentLength
  let currentLength ←
    if i % 2 = 0 then dumpText buffer bufferLength [0x20] currentLength else pure currentLength
  dumpText buffer bufferLength (paddedHex 2 c.toNat) currentLength

def dumpFrom (i : Nat) (data : List UInt8) (currentLength : Nat) : Dump Nat :=
  match data with
  | [] => return currentLength
  | c :: data => do
    let currentLength ← dumpByte buffer bufferLength i c currentLength
    dumpFrom (i + 1) data currentLength

def hexString (m : Memory) (data : List UInt8) : Memory × Nat :=
  match (dumpFrom buffer bufferLength 0 data 0).run m with
  | (.ok currentLength, m) => (m, currentLength)
  | (.error currentLength, m) => (m, currentLength)

end Claire
