import ClaireCommon.Strings.Impl.StringUtil

/-!
This module contains the complete hex dump of some data, as the texts it is put together from: the
offset before every 16th byte, a space before every 2nd byte, and the two digits of each byte.
-/

namespace Claire

open Numeral

def dumpTexts (i : Nat) : List UInt8 → List (List UInt8)
  | [] => []
  | c :: data =>
    (if i % 16 = 0 then [offsetText i] else []) ++ (if i % 2 = 0 then [[0x20]] else [])
      ++ [paddedHex 2 c.toNat] ++ dumpTexts (i + 1) data

def hexDump (data : List UInt8) : List UInt8 := (dumpTexts 0 data).flatten

-- Where the texts end if the first one starts at `start`
def textEnds (start : Nat) : List (List UInt8) → List Nat
  | [] => []
  | text :: texts => (start + text.length) :: textEnds (start + text.length) texts

theorem textEnds_append (start : Nat) (texts texts' : List (List UInt8))
    : textEnds start (texts ++ texts')
        = textEnds start texts ++ textEnds (start + texts.flatten.length) texts' := by
  induction texts generalizing start with
  | nil => rfl
  | cons text texts ih =>
    rw [List.cons_append, textEnds, ih, textEnds, List.cons_append, List.flatten_cons,
      List.length_append, Nat.add_assoc]

theorem le_of_mem_textEnds {start n : Nat} {texts : List (List UInt8)} (h : n ∈ textEnds start texts)
    : start ≤ n := by
  induction texts generalizing start with
  | nil => contradiction
  | cons text texts ih =>
    cases List.mem_cons.mp h with
    | inl h => omega
    | inr h =>
      have := ih h
      omega

theorem le_length_paddedHex (width n : Nat) : width ≤ (paddedHex width n).length := by
  unfold paddedHex
  rw [List.length_append, List.length_replicate]
  omega

theorem length_offsetText_pos (i : Nat) : 0 < (offsetText i).length := by
  unfold offsetText
  rw [List.length_append, List.length_singleton]
  omega

theorem lowerHexChar_ne_zero {d : Nat} (h : d < 16) : lowerHexChar d ≠ 0 := by
  revert d
  decide

theorem zero_notMem_paddedHex (width n : Nat) : 0 ∉ paddedHex width n := by
  unfold paddedHex
  intro hmem
  cases List.mem_append.mp hmem with
  | inl hmem => exact absurd (List.eq_of_mem_replicate hmem) (by decide)
  | inr hmem =>
    have ⟨d, hd, heq⟩ := List.mem_map.mp hmem
    exact lowerHexChar_ne_zero ((isNumeral_numeral (by decide) n).lt d hd) heq

theorem zero_notMem_offsetText (i : Nat) : 0 ∉ offsetText i := by
  have := zero_notMem_paddedHex 4 i
  simp [offsetText, this]

theorem zero_notMem_dumpTexts (i : Nat) (data : List UInt8) : 0 ∉ (dumpTexts i data).flatten := by
  induction data generalizing i with
  | nil => simp [dumpTexts]
  | cons c data ih =>
    have hoffset := zero_notMem_offsetText i
    have hbyte := zero_notMem_paddedHex 2 c.toNat
    rw [dumpTexts, List.flatten_append, List.flatten_append, List.flatten_append, List.mem_append,
      not_or]
    refine ⟨?_, ih (i + 1)⟩
    split <;> split <;> simp [hoffset, hbyte]

theorem zero_notMem_hexDump (data : List UInt8) : 0 ∉ hexDump data := zero_notMem_dumpTexts 0 data

end Claire
