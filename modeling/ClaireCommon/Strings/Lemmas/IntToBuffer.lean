import ClaireCommon.Lib.Numeral
import ClaireCommon.Strings.Impl.StringUtil

/-!
This module contains the proof that integers are formatted exactly: the buffer gets the numeral and a
zero behind it, and reading the numeral gives the integer back.
-/

namespace Claire

open Memory Numeral

def decimalChar (d : Nat) : UInt8 := UInt8.ofNat (0x30 + d)

def upperHexChar (d : Nat) : UInt8 := if d < 10 then decimalChar d else UInt8.ofNat (0x41 + (d - 10))

-- A minus sign in front of the numeral exactly if the integer is negative
structure IsDecimal (text : List UInt8) (v : Int) : Prop where
  numeral : ∃ ds, IsNumeral 10 ds v.natAbs ∧
    text = (if v < 0 then [minus] else []) ++ ds.map decimalChar

structure IsUpperHex (text : List UInt8) (n : Nat) : Prop where
  numeral : ∃ ds, IsNumeral 16 ds n ∧ text = ds.map upperHexChar

def decimal (v : Int) : List UInt8 :=
  (if v < 0 then [minus] else []) ++ (numeral 10 v.natAbs).map decimalChar

def upperHex (n : Nat) : List UInt8 := (numeral 16 n).map upperHexChar

def parseDecimal : List UInt8 → Int
  | [] => 0
  | c :: text =>
    if c = minus then
      -(value 10 (text.map fun c => c.toNat - 0x30) : Nat)
    else
      (value 10 ((c :: text).map fun c => c.toNat - 0x30) : Nat)

def parseHex (text : List UInt8) : Nat :=
  value 16 (text.map fun c => if c.toNat < 0x41 then c.toNat - 0x30 else c.toNat - 0x41 + 10)

theorem isDecimal_decimal (v : Int) : IsDecimal (decimal v) v where
  numeral := ⟨_, isNumeral_numeral (by decide) v.natAbs, rfl⟩

theorem isUpperHex_upperHex (n : Nat) : IsUpperHex (upperHex n) n where
  numeral := ⟨_, isNumeral_numeral (by decide) n, rfl⟩

theorem zero_natCast {d : Nat} (h : d < 10) : zero d = decimalChar d ∧ zero (-d) = decimalChar d := by
  revert d
  decide

theorem digitsHex_getD {d : Nat} (h : d < 16) : digitsHex.getD d 0 = upperHexChar d := by
  revert d
  decide

theorem decimalChar_ne_minus {d : Nat} (h : d < 10) : decimalChar d ≠ minus := by
  revert d
  decide

theorem toNat_decimalChar {d : Nat} (h : d < 10) : (decimalChar d).toNat - 0x30 = d := by
  revert d
  decide

theorem toNat_upperHexChar {d : Nat} (h : d < 16)
    : (if (upperHexChar d).toNat < 0x41 then (upperHexChar d).toNat - 0x30
        else (upperHexChar d).toNat - 0x41 + 10) = d := by
  revert d
  decide

-- The table is centred on zero, a negative remainder finds its digit on the left.
theorem zero_mod {t : IntType} (i : t.Value) : zero (i.mod 10) = decimalChar (i.val.natAbs % 10) := by
  have hlt : i.val.natAbs % 10 < 10 := Nat.mod_lt _ (by decide)
  have habs : (i.mod 10).natAbs = i.val.natAbs % 10 := Int.natAbs_tmod i.val 10
  have ⟨hpos, hneg⟩ := zero_natCast hlt
  rw [← habs] at hpos hneg ⊢
  cases Int.natAbs_eq (i.mod 10) with
  | inl heq =>
    rw [heq]
    exact hpos
  | inr heq =>
    rw [heq, Int.natAbs_neg]
    exact hneg

theorem digitHex_mod (i : IntType.unsignedLong.Value)
    : digitHex (i.mod 16) = upperHexChar (i.val.natAbs % 16) := by
  have hnonneg : (0 : Int) ≤ i.val := i.min_le
  have hmod : (i.mod 16).toNat = i.val.natAbs % 16 := by
    unfold IntType.Value.mod
    rw [Int.tmod_eq_emod_of_nonneg hnonneg]
    omega
  rw [digitHex, hmod, digitsHex_getD (Nat.mod_lt _ (by decide))]

theorem map_map_numeral {base : Nat} (hbase : 1 < base) {char : Nat → UInt8} {digit : UInt8 → Nat}
    (h : ∀ d < base, digit (char d) = d) (n : Nat)
    : ((numeral base n).map char).map digit = numeral base n := by
  rw [List.map_map]
  conv_rhs => rw [← List.map_id (numeral base n)]
  apply List.map_congr_left
  intro d hd
  exact h d ((isNumeral_numeral hbase n).lt d hd)

theorem parseDecimal_decimal (v : Int) : parseDecimal (decimal v) = v := by
  have hdigits : ((numeral 10 v.natAbs).map decimalChar).map (fun c => c.toNat - 0x30)
      = numeral 10 v.natAbs :=
    map_map_numeral (by decide) (fun _ hd => toNat_decimalChar hd) v.natAbs
  have hvalue := (isNumeral_numeral (by decide : 1 < 10) v.natAbs).value
  unfold decimal
  split
  . next hneg =>
    rw [List.singleton_append, parseDecimal, if_pos rfl, hdigits, hvalue]
    omega
  . next hnonneg =>
    rw [List.nil_append]
    cases hnumeral : numeral 10 v.natAbs with
    | nil => exact absurd hnumeral (numeral_ne_nil (by decide) _)
    | cons d ds =>
      have hlt : d < 10 := by
        apply (isNumeral_numeral (by decide) v.natAbs).lt
        rw [hnumeral]
        exact List.mem_cons_self
      rw [hnumeral] at hdigits hvalue
      rw [List.map_cons, parseDecimal, if_neg (decimalChar_ne_minus hlt), ← List.map_cons,
        hdigits, hvalue]
      omega

theorem parseHex_upperHex (n : Nat) : parseHex (upperHex n) = n := by
  unfold parseHex upperHex
  rw [map_map_numeral (by decide) fun d hd => @toNat_upperHexChar d hd]
  exact (isNumeral_numeral (by decide) n).value

theorem IntType.Value.range {t : IntType} (value : t.Value)
    : -2 ^ 63 ≤ value.val ∧ value.val < 2 ^ 64 := by
  have hmin := value.min_le
  have hmax := value.le_max
  have hrange : -2 ^ 63 ≤ t.min ∧ t.max < 2 ^ 64 := by cases t <;> decide
  omega

theorem length_decimal_le {t : IntType} (value : t.Value) : (decimal value.val).length ≤ 20 := by
  have ⟨hmin, hmax⟩ := value.range
  unfold decimal
  rw [List.length_append, List.length_map]
  by_cases hneg : value.val < 0
  . have hnumeral := @length_numeral_le 10 value.val.natAbs (by decide) 19 (by decide) (by omega)
    rw [if_pos hneg, List.length_singleton]
    omega
  . have hnumeral := @length_numeral_le 10 value.val.natAbs (by decide) 20 (by decide) (by omega)
    rw [if_neg hneg, List.length_nil]
    omega

theorem length_upperHex_le (value : IntType.unsignedLong.Value)
    : (upperHex value.val.natAbs).length ≤ 16 := by
  have ⟨hmin, hmax⟩ := value.range
  have hnonneg : (0 : Int) ≤ value.val := value.min_le
  unfold upperHex
  rw [List.length_map]
  exact length_numeral_le (by decide) (by decide) (by omega)

theorem emitDigits_spec {t : IntType} {base : Nat} {hbase : 1 < base} {digit : Int → UInt8}
    {char : Nat → UInt8} (hchar : ∀ i : t.Value, digit (i.mod base) = char (i.val.natAbs % base))
    (m : Memory) (p : Nat) (i : t.Value)
    : Writes p ((numeral base i.val.natAbs).map char).reverse m (emitDigits base hbase digit m p i).1
        ∧ (emitDigits base hbase digit m p i).2 = p + (numeral base i.val.natAbs).length := by
  fun_induction emitDigits base hbase digit m p i with
  | case1 m p i lsd m' hne ih =>
    have hdiv : i.val.natAbs / base ≠ 0 := by
      rw [← i.natAbs_div, ne_eq, Int.natAbs_eq_zero]
      exact hne
    have hfirst := Writes.write m p (digit lsd)
    have ⟨hrest, hend⟩ := ih
    rw [i.natAbs_div] at hrest hend
    rw [numeral_div hbase, if_neg hdiv, List.map_append, List.reverse_append, List.length_append, hend]
    constructor
    . rw [List.map_singleton, List.reverse_singleton, ← hchar]
      exact hfirst.append hrest
    . rw [List.length_singleton]
      omega
  | case2 m p i lsd m' hzero =>
    have hdiv : i.val.natAbs / base = 0 := by
      rw [← i.natAbs_div, Int.natAbs_eq_zero]
      exact not_not.mp hzero
    rw [numeral_div hbase, if_pos hdiv, List.nil_append, List.map_singleton, List.reverse_singleton,
      ← hchar]
    exact ⟨Writes.write m p (digit lsd), rfl⟩

theorem intToBuffer_spec {t : IntType} (m : Memory) (buffer : Nat) (value : t.Value)
    : Writes buffer (decimal value.val ++ [0]) m (intToBuffer m buffer value).1
        ∧ (intToBuffer m buffer value).2 = (decimal value.val).length := by
  have ⟨hdigits, hend⟩ := @emitDigits_spec t 10 (by decide) zero decimalChar zero_mod m buffer value
  unfold intToBuffer decimal
  cases hemit : emitDigits 10 (by decide) zero m buffer value with
  | mk m' p =>
    rw [hemit] at hdigits hend
    dsimp only at hdigits hend ⊢
    generalize hchars : (numeral 10 value.val.natAbs).map decimalChar = chars at *
    have hlength : (numeral 10 value.val.natAbs).length = chars.length := by
      rw [← hchars, List.length_map]
    rw [hlength, ← List.length_reverse] at hend
    by_cases hneg : value.val < 0
    . simp only [hneg, ↓reduceIte]
      have hsign := Writes.write m' p minus
      rw [hend] at hsign
      have hboth := hdigits.append hsign
      have hall := hboth.append (Writes.write _ _ 0)
      have hreverse := hall.reverse
      rw [List.length_append, List.length_singleton, ← Nat.add_assoc, ← hend, List.reverse_append,
        List.reverse_reverse] at hreverse
      refine ⟨hreverse, ?_⟩
      rw [hend, List.length_append, List.length_reverse, List.length_singleton]
      omega
    . simp only [hneg, ↓reduceIte]
      have hall := hdigits.append (Writes.write _ _ 0)
      have hreverse := hall.reverse
      rw [← hend, List.reverse_reverse] at hreverse
      refine ⟨hreverse, ?_⟩
      rw [hend, List.length_reverse, List.nil_append]
      omega

theorem hexToBuffer_spec (m : Memory) (buffer : Nat) (value : IntType.unsignedLong.Value)
    : Writes buffer (upperHex value.val.natAbs ++ [0]) m (hexToBuffer m buffer value).1
        ∧ (hexToBuffer m buffer value).2 = (upperHex value.val.natAbs).length := by
  have ⟨hdigits, hend⟩ := @emitDigits_spec .unsignedLong 16 (by decide) digitHex upperHexChar
    digitHex_mod m buffer value
  unfold hexToBuffer upperHex
  cases hemit : emitDigits 16 (by decide) digitHex m buffer value with
  | mk m' p =>
    rw [hemit] at hdigits hend
    dsimp only at hdigits hend ⊢
    rw [← List.length_map (f := upperHexChar), ← List.length_reverse] at hend
    have hall := hdigits.append (Writes.write _ _ 0)
    have hreverse := hall.reverse
    rw [← hend, List.reverse_reverse] at hreverse
    refine ⟨hreverse, ?_⟩
    rw [hend, List.length_reverse]
    omega

theorem toBuffer_exact (m : Memory) (buffer : Nat)
    : (∀ (t : IntType) (value : t.Value), ∃ text,
          IsDecimal text value.val
            ∧ Writes buffer (text ++ [0]) m (intToBuffer m buffer value).1
            ∧ (intToBuffer m buffer value).2 = text.length ∧ text.length ≤ 20
            ∧ parseDecimal text = value.val)
        ∧ (∀ value : IntType.unsignedLong.Value, ∃ text,
          IsUpperHex text value.val.natAbs
            ∧ Writes buffer (text ++ [0]) m (hexToBuffer m buffer value).1
            ∧ (hexToBuffer m buffer value).2 = text.length ∧ text.length ≤ 16
            ∧ (parseHex text : Int) = value.val) := by
  constructor
  . intro t value
    have ⟨hwrites, hlength⟩ := intToBuffer_spec m buffer value
    exact ⟨_, isDecimal_decimal value.val, hwrites, hlength, length_decimal_le value,
      parseDecimal_decimal value.val⟩
  . intro value
    have ⟨hwrites, hlength⟩ := hexToBuffer_spec m buffer value
    have hnonneg : (0 : Int) ≤ value.val := value.min_le
    refine ⟨_, isUpperHex_upperHex value.val.natAbs, hwrites, hlength, length_upperHex_le value, ?_⟩
    rw [parseHex_upperHex]
    omega

end Claire
