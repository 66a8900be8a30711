import ClaireCommon.Strings.Lemmas.UriEscape
import ClaireCommon.Strings.PercentEncoding

/-!
This module proves that `UriUnescape` accepts the grammar of percent encoding and nothing else, and what
it appends for each piece of the input.
-/

namespace Claire

open PercentEncoding

theorem hexEntry_upperDigits
    : ∀ i : Fin 16, EscapeTables.hexEntry (upperDigits.getD i 0).toNat = UInt8.ofNat i := by
  decide

theorem hexEntry_lowerDigits
    : ∀ i : Fin 16, EscapeTables.hexEntry (lowerDigits.getD i 0).toNat = UInt8.ofNat i := by
  decide

theorem hexEntry_eq_sixteen_or
    : ∀ v : UInt8, EscapeTables.hexEntry v.toNat = 16 ∨
        ∃ i : Fin 16, upperDigits[i.val]? = some v ∨ lowerDigits[i.val]? = some v := by
  apply forall_byte
  decide +kernel

theorem PercentEncoding.HexDigit.value_lt (digit : HexDigit) : digit.value < 16 := by
  cases digit.written with
  | inl h =>
    have ⟨hlt, _⟩ := List.getElem?_eq_some_iff.mp h
    apply hlt
  | inr h =>
    have ⟨hlt, _⟩ := List.getElem?_eq_some_iff.mp h
    apply hlt

theorem hexValue_char (digit : HexDigit) : hexValue digit.char = UInt8.ofNat digit.value := by
  have hlt := digit.value_lt
  rw [hexValue_eq]
  cases digit.written with
  | inl h =>
    have hentry := hexEntry_upperDigits ⟨digit.value, hlt⟩
    rw [List.getD_eq_getElem?_getD, h] at hentry
    apply hentry
  | inr h =>
    have hentry := hexEntry_lowerDigits ⟨digit.value, hlt⟩
    rw [List.getD_eq_getElem?_getD, h] at hentry
    apply hentry

theorem hexValue_char_ne (digit : HexDigit) : hexValue digit.char ≠ 16 := by
  have hlt := digit.value_lt
  rw [hexValue_char]
  apply ne_sixteen_of_lt
  rw [UInt8.toNat_ofNat_of_lt' (Nat.lt_trans hlt (by decide))]
  apply hlt

theorem exists_hexDigit {c : UInt8} (h : hexValue c ≠ 16) : ∃ digit : HexDigit, digit.char = c := by
  rw [hexValue_eq] at h
  cases hexEntry_eq_sixteen_or c with
  | inl hsixteen => apply absurd hsixteen h
  | inr hdigit =>
    have ⟨value, hwritten⟩ := hdigit
    exact ⟨⟨c, value, hwritten⟩, rfl⟩

theorem shiftLeft_or_eq
    : ∀ high low : Fin 16, (UInt8.ofNat high <<< 4) ||| UInt8.ofNat low = UInt8.ofNat (16 * high + low)
    := by
  decide +kernel

-- A position after whole pieces, and where it is when one more piece is read
theorem uriUnescapeTo.go_piece {input rest : List UInt8} {mode : EscapeMode} {piece : Piece}
    {p last : Nat} (output : List UInt8) (hlast : last ≤ p)
    (hdrop : input.drop p = piece.text ++ rest)
    : ∃ p' last' output', last' ≤ p' ∧ input.drop p' = rest ∧
        output' ++ run input last' p' = output ++ run input last p ++ [piece.decode mode] ∧
        go input mode p last output = go input mode p' last' output' := by
  cases piece with
  | escape high low =>
    have ⟨hp, hbyte, hrest⟩ := drop_eq_cons hdrop
    have ⟨hp1, hbyte1, hrest1⟩ := drop_eq_cons hrest
    have ⟨hp2, hbyte2, hrest2⟩ := drop_eq_cons hrest1
    have hdecode := shiftLeft_or_eq ⟨high.value, high.value_lt⟩ ⟨low.value, low.value_lt⟩
    have hvalue : (hexValue input[p + 1] <<< 4) ||| hexValue input[p + 2]
        = Piece.decode mode (.escape high low) := by
      rw [hbyte1, hbyte2, hexValue_char, hexValue_char, hdecode]
      rfl
    refine ⟨p + 3, p + 3, output ++ run input last p ++ [Piece.decode mode (.escape high low)],
      Nat.le_refl _, hrest2, ?_, ?_⟩
    . rw [run_self, List.append_nil]
    . rw [← hvalue]
      apply go_percent hp hbyte hp1 _ hp2
      . rw [hbyte2]
        apply hexValue_char_ne
      . rw [hbyte1]
        apply hexValue_char_ne
  | byte c hc =>
    have ⟨hp, hbyte, hrest⟩ := drop_eq_cons hdrop
    by_cases hplus : c = byteOf '+' ∧ mode = .query
    . refine ⟨p + 1, p + 1, output ++ run input last p ++ [byteOf ' '], by omega, hrest, ?_, ?_⟩
      . simp [Piece.decode, hplus]
      . rw [hplus.2]
        apply go_plus hp
        rw [hbyte, hplus.1]
    . refine ⟨p + 1, last, output, by omega, hrest, ?_, ?_⟩
      . rw [run_succ hlast hp, hbyte, Piece.decode, if_neg hplus, List.append_assoc]
      . apply go_passthrough hp
        . rw [hbyte]
          apply hc
        . rw [hbyte]
          apply hplus

theorem uriUnescapeTo.go_pieces {input rest : List UInt8} {mode : EscapeMode} {pieces : List Piece}
    {p last : Nat} (output : List UInt8) (hlast : last ≤ p)
    (hdrop : input.drop p = text pieces ++ rest)
    : ∃ p' last' output', last' ≤ p' ∧ input.drop p' = rest ∧
        output' ++ run input last' p' = output ++ run input last p ++ pieces.map (Piece.decode mode) ∧
        go input mode p last output = go input mode p' last' output' := by
  induction pieces generalizing p last output with
  | nil =>
    refine ⟨p, last, output, hlast, hdrop, ?_, rfl⟩
    rw [List.map_nil, List.append_nil]
  | cons piece pieces ih =>
    rw [text_cons, List.append_assoc] at hdrop
    have ⟨p₁, last₁, output₁, hlast₁, hdrop₁, houtput₁, hgo₁⟩ :=
      @go_piece _ _ mode _ _ _ output hlast hdrop
    have ⟨p', last', output', hlast', hdrop', houtput', hgo'⟩ := ih output₁ hlast₁ hdrop₁
    refine ⟨p', last', output', hlast', hdrop', ?_, ?_⟩
    . rw [houtput', houtput₁, List.map_cons, List.append_assoc, List.singleton_append]
    . rw [hgo₁, hgo']

theorem uriUnescapeTo_text (pieces : List Piece) (out : List UInt8) (mode : EscapeMode)
    : uriUnescapeTo (text pieces) out mode = ⟨none, out ++ pieces.map (Piece.decode mode)⟩ := by
  have hdrop : (text pieces).drop 0 = text pieces ++ [] := by simp
  have ⟨p, last, output, hlast, hend, houtput, hgo⟩ :=
    @uriUnescapeTo.go_pieces _ _ mode _ _ _ out (Nat.le_refl 0) hdrop
  have hp : ¬p < (text pieces).length := by
    rw [List.drop_eq_nil_iff] at hend
    omega
  unfold uriUnescapeTo
  rw [hgo]
  unfold uriUnescapeTo.go
  rw [dif_neg hp, houtput, run_self, List.append_nil]

theorem uriUnescapeTo.go_malformed {input rest : List UInt8} {mode : EscapeMode} {p last : Nat}
    {output : List UInt8} (hdrop : input.drop p = byteOf '%' :: rest)
    (hrest : ¬∃ (high low : HexDigit) (tail : List UInt8), rest = high.char :: low.char :: tail)
    : (go input mode p last output).exception ≠ none := by
  obtain ⟨hp, hbyte, hdrop'⟩ := drop_eq_cons hdrop
  unfold go
  rw [dif_pos hp]
  dsimp only
  rw [if_pos hbyte]
  split
  . simp
  . next hdistance =>
    have hp1 : p + 1 < input.length := by omega
    have hp2 : p + 2 < input.length := by omega
    rw [List.drop_eq_getElem_cons hp1, List.drop_eq_getElem_cons hp2] at hdrop'
    split
    . simp
    . next hvalid =>
      rw [not_or] at hvalid
      obtain ⟨high, hhigh⟩ := exists_hexDigit hvalid.1
      obtain ⟨low, hlow⟩ := exists_hexDigit hvalid.2
      apply absurd _ hrest
      refine ⟨high, low, input.drop (p + 3), ?_⟩
      rw [← hdrop', hhigh, hlow]

theorem uriUnescapeTo_of_malformed {s : List UInt8} (h : Malformed s) (out : List UInt8)
    (mode : EscapeMode)
    : (uriUnescapeTo s out mode).exception ≠ none := by
  have ⟨pieces, rest, hs, hrest⟩ := h
  have hdrop : s.drop 0 = text pieces ++ byteOf '%' :: rest := hs
  have ⟨p, last, output, hlast, hend, houtput, hgo⟩ :=
    @uriUnescapeTo.go_pieces _ _ mode _ _ _ out (Nat.le_refl 0) hdrop
  unfold uriUnescapeTo
  rw [hgo]
  apply uriUnescapeTo.go_malformed hend hrest

theorem uriUnescapeTo_grammar (s out : List UInt8) (mode : EscapeMode)
    : ((uriUnescapeTo s out mode).exception ≠ none ↔ Malformed s) ∧
      (¬Malformed s → ∃ pieces, s = text pieces) ∧
      ∀ pieces, s = text pieces →
        uriUnescapeTo s out mode = ⟨none, out ++ pieces.map (Piece.decode mode)⟩ := by
  have haccepted {pieces : List Piece} (hs : s = text pieces)
      : uriUnescapeTo s out mode = ⟨none, out ++ pieces.map (Piece.decode mode)⟩ := by
    rw [hs]
    apply uriUnescapeTo_text
  refine ⟨?_, ?_, ?_⟩
  . constructor
    . intro hexception
      cases eq_text_or_malformed s with
      | inl h =>
        have ⟨pieces, hs⟩ := h
        rw [haccepted hs] at hexception
        contradiction
      | inr h => apply h
    . intro h
      apply uriUnescapeTo_of_malformed h
  . intro hwell
    cases eq_text_or_malformed s with
    | inl h => apply h
    | inr h => contradiction
  . intro pieces hs
    apply haccepted hs

end Claire
