import Mathlib.Data.Nat.Digits.Lemmas

/-!
This module contains the numerals of natural numbers to a base, as lists of digits with the highest
one first.
-/

namespace Numeral

def numeral (b n : Nat) : List Nat := if n = 0 then [0] else (Nat.digits b n).reverse

def value (b : Nat) (digits : List Nat) : Nat := digits.foldl (fun r d => b * r + d) 0

-- The numeral as it is usually written: without leading zeros, and zero has one digit.
structure IsNumeral (b : Nat) (digits : List Nat) (n : Nat) : Prop where
  ne_nil : digits ≠ []
  lt : ∀ d ∈ digits, d < b
  noLeadingZero : digits.head? = some 0 → digits = [0]
  value : value b digits = n

variable {b n : Nat}

theorem value_concat (b : Nat) (digits : List Nat) (d : Nat)
    : value b (digits ++ [d]) = b * value b digits + d := by
  unfold value
  rw [List.foldl_append]
  rfl

theorem value_reverse (b : Nat) (digits : List Nat)
    : value b digits.reverse = Nat.ofDigits b digits := by
  induction digits with
  | nil => rfl
  | cons d digits ih =>
    rw [List.reverse_cons, value_concat, ih, Nat.ofDigits_cons, Nat.add_comm]

theorem isNumeral_numeral (hb : 1 < b) (n : Nat) : IsNumeral b (numeral b n) n := by
  unfold numeral
  split
  . next hzero =>
    constructor
    . simp
    . simp
      omega
    . simp
    . rw [hzero]
      rfl
  . next hpos =>
    constructor
    . rw [ne_eq, List.reverse_eq_nil_iff]
      exact Nat.digits_ne_nil_iff_ne_zero.mpr hpos
    . intro d hd
      rw [List.mem_reverse] at hd
      exact Nat.digits_lt_base hb hd
    . intro hhead
      rw [List.head?_reverse, List.getLast?_eq_getLast_of_ne_nil (Nat.digits_ne_nil_iff_ne_zero.mpr hpos)]
        at hhead
      injection hhead with hlast
      exact absurd hlast (Nat.getLast_digit_ne_zero b hpos)
    . rw [value_reverse, Nat.ofDigits_digits]

theorem numeral_ne_nil (hb : 1 < b) (n : Nat) : numeral b n ≠ [] := (isNumeral_numeral hb n).ne_nil

theorem length_numeral_le (hb : 1 < b) {k : Nat} (hk : 0 < k) (h : n < b ^ k)
    : (numeral b n).length ≤ k := by
  unfold numeral
  split
  . exact hk
  . rw [List.length_reverse, Nat.digits_length_le_iff hb]
    exact h

theorem numeral_div (hb : 1 < b) (n : Nat)
    : numeral b n = (if n / b = 0 then [] else numeral b (n / b)) ++ [n % b] := by
  by_cases hzero : n = 0
  . rw [hzero]
    simp [numeral]
  . unfold numeral
    rw [if_neg hzero, Nat.digits_def' hb (Nat.pos_of_ne_zero hzero), List.reverse_cons]
    split
    . next hdiv => rw [hdiv, Nat.digits_zero, List.reverse_nil]
    . rfl

end Numeral
