import ClaireCommon.Strings.Impl.UriEscape

/-!
This module contains the grammar of percent encoding. The code of `UriUnescape` and its table are not
used here, only the bytes and the modes.
-/

namespace Claire
namespace PercentEncoding

def upperDigits : List UInt8 := "0123456789ABCDEF".toList.map byteOf

def lowerDigits : List UInt8 := "0123456789abcdef".toList.map byteOf

structure HexDigit where
  char : UInt8
  value : Nat
  written : upperDigits[value]? = some char ∨ lowerDigits[value]? = some char

inductive Piece where
  | escape (high low : HexDigit)
  | byte (c : UInt8) (h : c ≠ byteOf '%')

namespace Piece

def text : Piece → List UInt8
  | escape high low => [byteOf '%', high.char, low.char]
  | byte c _ => [c]

def decode (mode : EscapeMode) : Piece → UInt8
  | escape high low => UInt8.ofNat (16 * high.value + low.value)
  | byte c _ => if c = byteOf '+' ∧ mode = .query then byteOf ' ' else c

end Piece

def text (pieces : List Piece) : List UInt8 := pieces.flatMap Piece.text

-- The scan from the left comes to a '%' that two hex digits do not follow.
def Malformed (s : List UInt8) : Prop :=
  ∃ pieces rest, s = text pieces ++ byteOf '%' :: rest ∧
    ¬∃ (high low : HexDigit) (tail : List UInt8), rest = high.char :: low.char :: tail

theorem text_cons (piece : Piece) (pieces : List Piece)
    : text (piece :: pieces) = piece.text ++ text pieces := by
  unfold text
  apply List.flatMap_cons

theorem Malformed.append {s : List UInt8} (piece : Piece) (h : Malformed s)
    : Malformed (piece.text ++ s) := by
  have ⟨pieces, rest, hs, hrest⟩ := h
  apply Exists.intro (piece :: pieces)
  apply Exists.intro rest
  rw [hs, text_cons, List.append_assoc]
  apply And.intro rfl hrest

-- By the length: an escape takes three bytes of the string at once.
theorem eq_text_or_malformed (s : List UInt8) : (∃ pieces, s = text pieces) ∨ Malformed s := by
  have hpiece {piece : Piece} {rest : List UInt8}
      (h : (∃ pieces, rest = text pieces) ∨ Malformed rest)
      : (∃ pieces, piece.text ++ rest = text pieces) ∨ Malformed (piece.text ++ rest) := by
    cases h with
    | inl h =>
      have ⟨pieces, hrest⟩ := h
      apply Or.inl
      apply Exists.intro (piece :: pieces)
      rw [text_cons, hrest]
    | inr h =>
      apply Or.inr
      apply h.append
  match s with
  | [] =>
    apply Or.inl
    apply Exists.intro []
    simp [text]
  | c :: rest =>
    by_cases hc : c = byteOf '%'
    . by_cases hrest : ∃ (high low : HexDigit) (tail : List UInt8),
        rest = high.char :: low.char :: tail
      . have ⟨high, low, tail, htail⟩ := hrest
        rw [htail, hc]
        apply @hpiece (.escape high low)
        apply eq_text_or_malformed
      . apply Or.inr
        apply Exists.intro []
        apply Exists.intro rest
        rw [hc]
        apply And.intro (by simp [text]) hrest
    . apply @hpiece (.byte c hc)
      apply eq_text_or_malformed
termination_by s.length
decreasing_by
  . rw [htail]
    simp
    omega
  . simp

end PercentEncoding
end Claire
