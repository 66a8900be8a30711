import Mathlib.Data.Nat.Bitwise
import Mathlib.Tactic.Ring

/-!
This module contains numbers as bytes: the little endian bytes of a fixed width, and the unsigned and
signed LEB128 forms, seven bits a byte with the lowest first and the high bit set in every byte but
the last.
-/

namespace Bytes

def littleEndian : List UInt8 → Nat
  | [] => 0
  | byte :: bytes => byte.toNat + 256 * littleEndian bytes

def toLittleEndian : Nat → Nat → List UInt8
  | 0, _ => []
  | n + 1, value => UInt8.ofNat value :: toLittleEndian n (value / 256)

@[simp]
theorem length_toLittleEndian (n value : Nat) : (toLittleEndian n value).length = n := by
  induction n generalizing value with
  | zero => rfl
  | succ n ih =>
    unfold toLittleEndian
    rw [List.length_cons, ih]

theorem littleEndian_toLittleEndian (n value : Nat)
    : littleEndian (toLittleEndian n value) = value % 256 ^ n := by
  induction n generalizing value with
  | zero => rw [toLittleEndian, littleEndian, Nat.pow_zero, Nat.mod_one]
  | succ n ih =>
    have hsplit : value % 256 ^ (n + 1) = value % 256 + 256 * (value / 256 % 256 ^ n) := by
      rw [Nat.pow_succ', Nat.mod_mul]
    rw [toLittleEndian, littleEndian, ih, UInt8.toNat_ofNat', hsplit]

theorem littleEndian_toLittleEndian_of_lt {n value : Nat} (h : value < 256 ^ n)
    : littleEndian (toLittleEndian n value) = value := by
  rw [littleEndian_toLittleEndian, Nat.mod_eq_of_lt h]

theorem toLittleEndian_littleEndian (bytes : List UInt8)
    : toLittleEndian bytes.length (littleEndian bytes) = bytes := by
  induction bytes with
  | nil => rfl
  | cons byte bytes ih =>
    have hlt := byte.toNat_lt
    have hdiv : (byte.toNat + 256 * littleEndian bytes) / 256 = littleEndian bytes := by omega
    have hbyte : UInt8.ofNat (byte.toNat + 256 * littleEndian bytes) = byte := by
      apply UInt8.toNat_inj.mp
      rw [UInt8.toNat_ofNat']
      omega
    rw [List.length_cons, littleEndian, toLittleEndian, hdiv, hbyte, ih]

theorem littleEndian_lt (bytes : List UInt8) : littleEndian bytes < 256 ^ bytes.length := by
  induction bytes with
  | nil => apply Nat.one_pos
  | cons byte bytes ih =>
    rw [littleEndian, List.length_cons, Nat.pow_succ]
    have := byte.toNat_lt
    omega

inductive IsLeb : List UInt8 → Prop
  | last {byte : UInt8} (h : byte.toNat < 128) : IsLeb [byte]
  | more {byte : UInt8} {bytes : List UInt8} (h : 128 ≤ byte.toNat) (rest : IsLeb bytes)
      : IsLeb (byte :: bytes)

def unsigned : List UInt8 → Nat
  | [] => 0
  | byte :: bytes => byte.toNat % 128 + 128 * unsigned bytes

def signed : List UInt8 → Int
  | [] => 0
  | [byte] => if byte.toNat % 128 < 64 then (byte.toNat % 128 : Nat) else (byte.toNat % 128 : Nat) - 128
  | byte :: bytes => (byte.toNat % 128 : Nat) + 128 * signed bytes

theorem IsLeb.ne_nil {bytes : List UInt8} (h : IsLeb bytes) : bytes ≠ [] := by
  cases h <;> simp

theorem IsLeb.length_pos {bytes : List UInt8} (h : IsLeb bytes) : 0 < bytes.length :=
  List.length_pos_iff.mpr h.ne_nil

structure IsLeb64 (bytes : List UInt8) : Prop where
  isLeb : IsLeb bytes
  length_le : bytes.length ≤ 10

theorem IsLeb.getLastD_cons {byte : UInt8} {bytes : List UInt8} (h : IsLeb bytes)
    : (byte :: bytes).getLastD 0 = bytes.getLastD 0 := by
  cases h <;> rfl

theorem IsLeb.signed_cons {byte : UInt8} {bytes : List UInt8} (h : IsLeb bytes)
    : signed (byte :: bytes) = (byte.toNat % 128 : Nat) + 128 * signed bytes := by
  cases h <;> rfl

theorem unsigned_lt (bytes : List UInt8) : unsigned bytes < 2 ^ (7 * bytes.length) := by
  induction bytes with
  | nil => apply Nat.one_pos
  | cons byte bytes ih =>
    rw [unsigned, List.length_cons, Nat.mul_succ, Nat.pow_add]
    omega

theorem IsLeb.signed_eq {bytes : List UInt8} (h : IsLeb bytes)
    : signed bytes = unsigned bytes
        - if (bytes.getLastD 0).toNat % 128 < 64 then 0 else (2 : Int) ^ (7 * bytes.length) := by
  induction h with
  | @last byte h =>
    by_cases hsign : byte.toNat % 128 < 64 <;> simp [signed, unsigned, hsign]
  | @more byte bytes h rest ih =>
    rw [rest.signed_cons, rest.getLastD_cons, ih, unsigned, List.length_cons, Nat.mul_succ]
    split
    . push_cast
      ring
    . push_cast [pow_add]
      ring

-- The bytes are one of the LEB128 forms of the number.
structure EncodesLeb (n : Nat) (bytes : List UInt8) : Prop where
  leb : IsLeb64 bytes
  value : unsigned bytes = n

theorem toNat_ofNat_last {n : Nat} (h : n < 128) : (UInt8.ofNat n).toNat = n :=
  UInt8.toNat_ofNat_of_lt' (Nat.lt_trans h (by decide))

theorem toNat_ofNat_more (n : Nat) : (UInt8.ofNat (n % 128 + 128)).toNat = n % 128 + 128 := by
  apply UInt8.toNat_ofNat_of_lt'
  have : n % 128 < 128 := Nat.mod_lt n (by decide)
  apply Nat.lt_of_lt_of_le (Nat.add_lt_add_right this 128) (by decide)

def toUnsignedLeb (n : Nat) : List UInt8 :=
  if n < 128 then
    [UInt8.ofNat n]
  else
    UInt8.ofNat (n % 128 + 128) :: toUnsignedLeb (n / 128)

def toSignedLeb (i : Int) : List UInt8 :=
  if -64 ≤ i ∧ i < 64 then
    [UInt8.ofNat (i % 128).toNat]
  else
    UInt8.ofNat ((i % 128).toNat % 128 + 128) :: toSignedLeb (i / 128)
termination_by i.natAbs

theorem isLeb_toUnsignedLeb (n : Nat) : IsLeb (toUnsignedLeb n) := by
  induction n using toUnsignedLeb.induct with
  | case1 n h =>
    rw [toUnsignedLeb, if_pos h]
    apply IsLeb.last
    rw [toNat_ofNat_last h]
    exact h
  | case2 n h ih =>
    rw [toUnsignedLeb, if_neg h]
    apply IsLeb.more _ ih
    rw [toNat_ofNat_more]
    omega

theorem unsigned_toUnsignedLeb (n : Nat) : unsigned (toUnsignedLeb n) = n := by
  induction n using toUnsignedLeb.induct with
  | case1 n h =>
    rw [toUnsignedLeb, if_pos h, unsigned, unsigned, toNat_ofNat_last h]
    omega
  | case2 n h ih =>
    rw [toUnsignedLeb, if_neg h, unsigned, ih, toNat_ofNat_more]
    omega

theorem length_toUnsignedLeb_le {k n : Nat} (h : n < 2 ^ (7 * (k + 1)))
    : (toUnsignedLeb n).length ≤ k + 1 := by
  induction k generalizing n with
  | zero =>
    have hlt : n < 128 := h
    rw [toUnsignedLeb, if_pos hlt]
    apply Nat.le_refl
  | succ k ih =>
    rw [toUnsignedLeb]
    split
    . rw [List.length_singleton]
      omega
    . have hdiv : n / 128 < 2 ^ (7 * (k + 1)) := by
        rw [Nat.mul_succ, Nat.pow_add] at h
        apply Nat.div_lt_of_lt_mul
        rw [Nat.mul_comm]
        apply h
      rw [List.length_cons]
      exact Nat.succ_le_succ (ih hdiv)

theorem isLeb64_toUnsignedLeb {n : Nat} (h : n < 2 ^ 64) : IsLeb64 (toUnsignedLeb n) where
  isLeb := isLeb_toUnsignedLeb n
  length_le := @length_toUnsignedLeb_le 9 n (Nat.lt_trans h (by decide))

theorem isLeb_toSignedLeb (i : Int) : IsLeb (toSignedLeb i) := by
  induction i using toSignedLeb.induct with
  | case1 i h =>
    rw [toSignedLeb, if_pos h]
    apply IsLeb.last
    rw [toNat_ofNat_last (by omega)]
    omega
  | case2 i h ih =>
    rw [toSignedLeb, if_neg h]
    apply IsLeb.more _ ih
    rw [toNat_ofNat_more]
    omega

theorem signed_toSignedLeb (i : Int) : signed (toSignedLeb i) = i := by
  induction i using toSignedLeb.induct with
  | case1 i h =>
    rw [toSignedLeb, if_pos h, signed, toNat_ofNat_last (by omega)]
    split <;> omega
  | case2 i h ih =>
    rw [toSignedLeb, if_neg h, (isLeb_toSignedLeb _).signed_cons, ih, toNat_ofNat_more]
    omega

theorem length_toSignedLeb_le {k : Nat} {i : Int} (hlo : -2 ^ (7 * k + 6) ≤ i)
    (hhi : i < 2 ^ (7 * k + 6)) : (toSignedLeb i).length ≤ k + 1 := by
  induction k generalizing i with
  | zero =>
    rw [toSignedLeb, if_pos ⟨hlo, hhi⟩]
    apply Nat.le_refl
  | succ k ih =>
    rw [toSignedLeb]
    split
    . rw [List.length_singleton]
      omega
    . have hpow : (2 : Int) ^ (7 * (k + 1) + 6) = 128 * 2 ^ (7 * k + 6) := by
        rw [Nat.mul_succ, Nat.add_right_comm, pow_add, mul_comm]
        rfl
      rw [hpow] at hlo hhi
      rw [List.length_cons]
      apply Nat.succ_le_succ
      apply ih
      . omega
      . omega

theorem isLeb64_toSignedLeb {i : Int} (hlo : -2 ^ 63 ≤ i) (hhi : i < 2 ^ 63)
    : IsLeb64 (toSignedLeb i) where
  isLeb := isLeb_toSignedLeb i
  length_le := @length_toSignedLeb_le 9 i (Int.le_trans (by decide) hlo)
    (Int.lt_of_lt_of_le hhi (by decide))

theorem exists_encodesLeb {n : Nat} (h : n < 2 ^ 64) : ∃ bytes, EncodesLeb n bytes :=
  ⟨toUnsignedLeb n, isLeb64_toUnsignedLeb h, unsigned_toUnsignedLeb n⟩

end Bytes
