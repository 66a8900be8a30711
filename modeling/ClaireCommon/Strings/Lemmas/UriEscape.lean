import ClaireCommon.Strings.Impl.UriEscape
import Mathlib.Tactic.DeriveFintype

/-!
This module proves that `UriUnescape` undoes `UriEscape`, and for which strings `UriEscape` writes the
alphabet of its documentation.
-/

namespace Claire

theorem forall_byte {property : UInt8 → Prop} (h : ∀ i : Fin 256, property (UInt8.ofFin i))
    : ∀ v, property v := by
  intro v
  apply h v.toFin

theorem uriEscapeClass_eq (v : UInt8) : uriEscapeClass v = EscapeTables.uriEscapeEntry v.toNat := by
  unfold uriEscapeClass kUriEscapeTable
  apply Vector.getElem_ofFn

theorem hexValue_eq (c : UInt8) : hexValue c = EscapeTables.hexEntry c.toNat := by
  unfold hexValue kHexTable
  apply Vector.getElem_ofFn

theorem uriEscapeClass_percent : uriEscapeClass (byteOf '%') = 4 := by
  rw [uriEscapeClass_eq]
  decide

theorem uriEscapeClass_plus : uriEscapeClass (byteOf '+') = 4 := by
  rw [uriEscapeClass_eq]
  decide

theorem eq_byteOf_iff {v : UInt8} {c : Char} (h : c.toNat < 256)
    : v = byteOf c ↔ v.toNat = EscapeTables.ord c := by
  unfold byteOf EscapeTables.ord
  rw [← UInt8.toNat_inj, UInt8.toNat_ofNat_of_lt' h]

theorem eq_space_of_uriEscapeClass {v : UInt8} (h : uriEscapeClass v = 3) : v = byteOf ' ' := by
  rw [uriEscapeClass_eq] at h
  unfold EscapeTables.uriEscapeEntry at h
  split at h
  . contradiction
  . split at h
    . contradiction
    . split at h
      . next heq => exact (eq_byteOf_iff (by decide)).mpr heq
      . contradiction

theorem EscapeMode.not_four_le_value (mode : EscapeMode) : ¬(4 : UInt8) ≤ mode.value := by
  cases mode <;> decide

theorem hexValue_kHexValues
    : ∀ i : Fin 16, hexValue (kHexValues.getD i 0) = UInt8.ofNat i := by
  simp only [hexValue_eq]
  decide

theorem shiftRight_toNat_lt (v : UInt8) : (v >>> 4).toNat < 16 := by
  have := v.toNat_lt
  simp [Nat.shiftRight_eq_div_pow]
  omega

theorem and_toNat_lt (v : UInt8) : (v &&& 0x0f).toNat < 16 := by
  rw [UInt8.toNat_and]
  apply Nat.lt_of_le_of_lt Nat.and_le_right
  decide

theorem hexValue_of_lt {n : UInt8} (h : n.toNat < 16) : hexValue (kHexValues.getD n.toNat 0) = n := by
  have := hexValue_kHexValues ⟨n.toNat, h⟩
  rw [this, UInt8.ofNat_toNat]

theorem ne_sixteen_of_lt {n : UInt8} (h : n.toNat < 16) : n ≠ 16 := by
  intro heq
  rw [heq] at h
  contradiction

theorem toNat_highNibble (v : UInt8) : (v >>> 4).toNat = v.toNat / 16 := by
  rw [UInt8.toNat_shiftRight]
  exact Nat.shiftRight_eq_div_pow v.toNat 4

theorem toNat_lowNibble (v : UInt8) : (v &&& 0x0f).toNat = v.toNat % 16 := by
  rw [UInt8.toNat_and]
  exact Nat.and_two_pow_sub_one_eq_mod v.toNat 4

theorem nibbles (v : UInt8) : ((v >>> 4) <<< 4) ||| (v &&& 0x0f) = v := by
  have hlt := v.toNat_lt
  have hhigh : ((v >>> 4) <<< 4).toNat = (v.toNat / 16) <<< 4 := by
    rw [UInt8.toNat_shiftLeft, toNat_highNibble]
    apply Nat.mod_eq_of_lt
    show (v.toNat / 16) <<< 4 < 2 ^ 8
    rw [Nat.shiftLeft_eq]
    omega
  rw [← UInt8.toNat_inj, UInt8.toNat_or, hhigh, toNat_lowNibble,
    ← Nat.shiftLeft_add_eq_or_of_lt (by omega), Nat.shiftLeft_eq]
  omega

@[simp]
theorem run_self (input : List UInt8) (p : Nat) : run input p p = [] := by
  simp [run]

theorem run_succ {input : List UInt8} {last p : Nat} (hlast : last ≤ p) (hp : p < input.length)
    : run input last (p + 1) = run input last p ++ [input[p]] := by
  unfold run
  have hget : (input.drop last)[p - last]? = some input[p] := by
    rw [List.getElem?_drop, Nat.add_sub_cancel' hlast, List.getElem?_eq_getElem hp]
  rw [Nat.succ_sub hlast, List.take_add_one, hget]
  rfl

theorem length_run {input : List UInt8} {last p : Nat} (hp : p ≤ input.length)
    : (run input last p).length = p - last := by
  unfold run
  rw [List.length_take, List.length_drop]
  omega

theorem run_append {x y : List UInt8} {last p : Nat} (hlast : last ≤ p) (hp : p ≤ x.length)
    : run (x ++ y) last p = run x last p := by
  unfold run
  rw [List.drop_append_of_le_length (by omega), List.take_append_of_le_length]
  rw [List.length_drop]
  omega

def escapeByte (mode : EscapeMode) (v : UInt8) : List UInt8 :=
  if uriEscapeClass v ≤ mode.value then
    [v]
  else if mode = .query ∧ uriEscapeClass v = 3 then
    [byteOf '+']
  else
    percentEncode v

theorem uriEscapeTo.go_eq (input : List UInt8) (mode : EscapeMode) (p last : Nat)
    (output : List UInt8) (hlast : last ≤ p)
    : go input mode p last output
        = output ++ run input last p ++ (input.drop p).flatMap (escapeByte mode) := by
  fun_induction go input mode p last output with
  | case1 p last output hp v discriminator hpass ih =>
    have hbyte : escapeByte mode input[p] = [input[p]] := if_pos hpass
    rw [ih (by omega), run_succ hlast hp, List.drop_eq_getElem_cons hp, List.flatMap_cons, hbyte]
    simp
  | case2 p last output hp v discriminator hpass hspace ih =>
    have hbyte : escapeByte mode input[p] = [byteOf '+'] := by
      rw [escapeByte, if_neg hpass, if_pos hspace]
    rw [ih (by omega), run_self, List.drop_eq_getElem_cons hp, List.flatMap_cons, hbyte]
    simp
  | case3 p last output hp v discriminator hpass hspace ih =>
    have hbyte : escapeByte mode input[p] = percentEncode v := by
      rw [escapeByte, if_neg hpass, if_neg hspace]
    rw [ih (by omega), run_self, List.drop_eq_getElem_cons hp, List.flatMap_cons, hbyte]
    simp
  | case4 p last output hp =>
    rw [List.drop_eq_nil_of_le (by omega)]
    simp

theorem uriEscapeTo_eq (input output : List UInt8) (mode : EscapeMode)
    : uriEscapeTo input output mode = output ++ input.flatMap (escapeByte mode) := by
  unfold uriEscapeTo
  rw [uriEscapeTo.go_eq input mode 0 0 output (Nat.le_refl 0)]
  simp

theorem uriEscape_eq (input : List UInt8) (mode : EscapeMode)
    : uriEscape input mode = input.flatMap (escapeByte mode) := by
  simp [uriEscape, uriEscapeTo_eq]

theorem uriUnescapeTo.go_append (input : List UInt8) (mode : EscapeMode) (p last : Nat)
    (out output : List UInt8)
    : go input mode p last (out ++ output)
        =
      ⟨(go input mode p last output).exception, out ++ (go input mode p last output).output⟩ := by
  fun_induction go input mode p last output with
  | case1 p last output hp c hpercent hdistance =>
    unfold go
    simp [hp, c, hpercent, hdistance]
  | case2 p last output hp c hpercent hdistance h1 h2 hinvalid =>
    unfold go
    simp [hp, c, hpercent, hdistance, h1, h2, hinvalid]
  | case3 p last output hp c hpercent hdistance h1 h2 hvalid ih =>
    rw [← ih]
    conv => lhs; unfold go
    simp [hp, c, hpercent, hdistance, h1, h2, hvalid]
  | case4 p last output hp c hpercent hplus ih =>
    have hne : byteOf '+' ≠ byteOf '%' := by decide
    rw [← ih]
    conv => lhs; unfold go
    simp [hp, c, hplus, hne]
  | case5 p last output hp c hpercent hplus ih =>
    rw [← ih]
    conv => lhs; unfold go
    simp [hp, c, hpercent, hplus]
  | case6 p last output hp =>
    unfold go
    simp [hp]

theorem uriUnescapeTo_eq_append (input output : List UInt8) (mode : EscapeMode)
    : uriUnescapeTo input output mode
        =
      ⟨(uriUnescapeTo input [] mode).exception, output ++ (uriUnescapeTo input [] mode).output⟩ := by
  unfold uriUnescapeTo
  rw [← uriUnescapeTo.go_append, List.append_nil]

theorem drop_eq_cons {input rest : List UInt8} {p : Nat} {c : UInt8} (h : input.drop p = c :: rest)
    : ∃ hp : p < input.length, input[p] = c ∧ input.drop (p + 1) = rest := by
  have hp : p < input.length := by
    apply Nat.lt_of_not_le
    intro hle
    rw [List.drop_eq_nil_of_le hle] at h
    contradiction
  rw [List.drop_eq_getElem_cons hp] at h
  injection h with hc hrest
  apply Exists.intro hp ⟨hc, hrest⟩

theorem uriUnescapeTo.go_passthrough {input : List UInt8} {mode : EscapeMode} {p last : Nat}
    {output : List UInt8} (hp : p < input.length) (hpercent : input[p] ≠ byteOf '%')
    (hplus : ¬(input[p] = byteOf '+' ∧ mode = .query))
    : go input mode p last output = go input mode (p + 1) last output := by
  conv => lhs; unfold go
  simp only [hp, hpercent, hplus, ↓reduceDIte, ↓reduceIte]

theorem uriUnescapeTo.go_plus {input : List UInt8} {p last : Nat} {output : List UInt8}
    (hp : p < input.length) (hplus : input[p] = byteOf '+')
    : go input .query p last output
        = go input .query (p + 1) (p + 1) (output ++ run input last p ++ [byteOf ' ']) := by
  have hpercent : byteOf '+' ≠ byteOf '%' := by decide
  conv => lhs; unfold go
  simp only [hp, hplus, hpercent, and_self, ↓reduceDIte, ↓reduceIte]

theorem uriUnescapeTo.go_percent {input : List UInt8} {mode : EscapeMode} {p last : Nat}
    {output : List UInt8} (hp : p < input.length) (hpercent : input[p] = byteOf '%')
    (hp1 : p + 1 < input.length) (hh1 : hexValue input[p + 1] ≠ 16)
    (hp2 : p + 2 < input.length) (hh2 : hexValue input[p + 2] ≠ 16)
    : go input mode p last output
        = go input mode (p + 3) (p + 3)
            (output ++ run input last p ++ [(hexValue input[p + 1] <<< 4) ||| hexValue input[p + 2]])
    := by
  have hdistance : ¬input.length - p < 3 := by omega
  conv => lhs; unfold go
  simp only [hp, hpercent, hdistance, hh1, hh2, or_self, ↓reduceDIte, ↓reduceIte]

theorem ne_of_uriEscapeClass_le {mode : EscapeMode} {v : UInt8}
    (h : uriEscapeClass v ≤ mode.value) : v ≠ byteOf '%' ∧ v ≠ byteOf '+' := by
  constructor
  . intro heq
    rw [heq, uriEscapeClass_percent] at h
    apply mode.not_four_le_value h
  . intro heq
    rw [heq, uriEscapeClass_plus] at h
    apply mode.not_four_le_value h

theorem uriUnescapeTo.go_escapeByte {input rest : List UInt8} {mode : EscapeMode} {v : UInt8}
    {p last : Nat} (output : List UInt8) (hlast : last ≤ p)
    (hdrop : input.drop p = escapeByte mode v ++ rest)
    : ∃ p' last' output', last' ≤ p' ∧ input.drop p' = rest ∧
        output' ++ run input last' p' = output ++ run input last p ++ [v] ∧
        go input mode p last output = go input mode p' last' output' := by
  unfold escapeByte at hdrop
  split at hdrop
  . next hpass =>
    have ⟨hp, hbyte, hrest⟩ := drop_eq_cons hdrop
    have ⟨hpercent, hplus⟩ := ne_of_uriEscapeClass_le hpass
    refine ⟨p + 1, last, output, by omega, hrest, ?_, ?_⟩
    . rw [run_succ hlast hp, hbyte, List.append_assoc]
    . apply go_passthrough hp
      . rw [hbyte]
        apply hpercent
      . rw [hbyte]
        intro h
        apply hplus h.1
  . split at hdrop
    . next hspace =>
      have ⟨hp, hbyte, hrest⟩ := drop_eq_cons hdrop
      refine ⟨p + 1, p + 1, output ++ run input last p ++ [v], by omega, hrest, ?_, ?_⟩
      . rw [run_self, List.append_nil]
      . rw [hspace.1, eq_space_of_uriEscapeClass hspace.2]
        apply go_plus hp hbyte
    . have ⟨hp, hbyte, hrest⟩ := drop_eq_cons hdrop
      have ⟨hp1, hbyte1, hrest1⟩ := drop_eq_cons hrest
      have ⟨hp2, hbyte2, hrest2⟩ := drop_eq_cons hrest1
      have hhigh := shiftRight_toNat_lt v
      have hlow := and_toNat_lt v
      have hh1 : hexValue input[p + 1] = v >>> 4 := by
        rw [hbyte1]
        apply hexValue_of_lt hhigh
      have hh2 : hexValue input[p + 2] = v &&& 0x0f := by
        rw [hbyte2]
        apply hexValue_of_lt hlow
      refine ⟨p + 3, p + 3, output ++ run input last p ++ [v], by omega, hrest2, ?_, ?_⟩
      . rw [run_self, List.append_nil]
      . rw [go_percent hp hbyte hp1 _ hp2, hh1, hh2, nibbles]
        . rw [hh2]
          apply ne_sixteen_of_lt hlow
        . rw [hh1]
          apply ne_sixteen_of_lt hhigh

theorem uriUnescapeTo.go_flatMap {input s : List UInt8} {mode : EscapeMode} {p last : Nat}
    (output : List UInt8) (hlast : last ≤ p)
    (hdrop : input.drop p = s.flatMap (escapeByte mode))
    : go input mode p last output = ⟨none, output ++ run input last p ++ s⟩ := by
  induction s generalizing p last output with
  | nil =>
    have hp : ¬p < input.length := by
      have := List.drop_eq_nil_iff.mp hdrop
      omega
    unfold go
    simp [hp]
  | cons v s ih =>
    rw [List.flatMap_cons] at hdrop
    have ⟨p', last', output', hlast', hdrop', houtput, hgo⟩ := go_escapeByte output hlast hdrop
    rw [hgo, ih output' hlast' hdrop', houtput]
    simp

theorem uriUnescapeTo_uriEscape (s output : List UInt8) (mode : EscapeMode)
    : uriUnescapeTo (uriEscape s mode) output mode = ⟨none, output ++ s⟩ := by
  have hgo := uriUnescapeTo.go_flatMap output (Nat.le_refl 0) (uriEscape_eq s mode)
  rw [run_self, List.append_nil] at hgo
  apply hgo

theorem uriEscape_inj {s s' : List UInt8} {mode : EscapeMode}
    : uriEscape s mode = uriEscape s' mode ↔ s = s' := by
  constructor
  . intro h
    have hs := uriUnescapeTo_uriEscape s [] mode
    rw [h, uriUnescapeTo_uriEscape s' [] mode] at hs
    injection hs with _ hs
    exact hs.symm
  . intro h
    rw [h]

theorem uriEscape_nil (mode : EscapeMode) : uriEscape [] mode = [] := by
  rw [uriEscape_eq]
  rfl

theorem uriUnescape_uriEscape (s out : List UInt8) (mode : EscapeMode)
    : uriUnescape (uriEscape s mode) mode = .ok s ∧
      uriUnescapeTo (uriEscape s mode) out mode = ⟨none, out ++ s⟩ ∧
      uriEscapeTo s out mode = out ++ uriEscape s mode ∧
      ∀ input, uriUnescapeTo input out mode
          =
        ⟨(uriUnescapeTo input [] mode).exception, out ++ (uriUnescapeTo input [] mode).output⟩ := by
  refine ⟨?_, ?_, ?_, ?_⟩
  . unfold uriUnescape
    rw [uriUnescapeTo_uriEscape]
    rfl
  . apply uriUnescapeTo_uriEscape
  . rw [uriEscapeTo_eq, uriEscape_eq]
  . intro input
    apply uriUnescapeTo_eq_append

theorem uriUnescapeTo.length_go {input : List UInt8} {mode : EscapeMode} {p last : Nat}
    {output : List UInt8} (hlast : last ≤ p) (hp : p ≤ input.length)
    : (go input mode p last output).exception = none →
      output.length + (p - last) + (if p < input.length then 1 else 0)
        ≤ (go input mode p last output).output.length := by
  fun_induction go input mode p last output with
  | case1 => simp
  | case2 => simp
  | case3 p last output hlt c hpercent hdistance h1 h2 hvalid ih =>
    intro h
    have hle := ih (Nat.le_refl _) (by omega) h
    simp only [List.length_append, length_run hp, List.length_singleton] at hle
    rw [if_pos hlt]
    omega
  | case4 p last output hlt c hpercent hplus ih =>
    intro h
    have hle := ih (Nat.le_refl _) (by omega) h
    simp only [List.length_append, length_run hp, List.length_singleton] at hle
    rw [if_pos hlt]
    omega
  | case5 p last output hlt c hpercent hplus ih =>
    intro h
    have hle := ih (by omega) (by omega) h
    rw [if_pos hlt]
    omega
  | case6 p last output hge =>
    intro _
    rw [if_neg hge, List.length_append, length_run hp]
    omega

theorem uriUnescapeTo.go_prefix {x : List UInt8} (y : List UInt8) {mode : EscapeMode} {p last : Nat}
    {output : List UInt8} (hlast : last ≤ p) (hp : p ≤ x.length)
    : (go x mode p last output).exception = none →
      ∃ last' output', last' ≤ x.length
        ∧ go (x ++ y) mode p last output = go (x ++ y) mode x.length last' output'
        ∧ output'.length + (x.length - last') = (go x mode p last output).output.length := by
  have hlt' {i : Nat} (hi : i < x.length) : i < (x ++ y).length := by
    rw [List.length_append]
    omega
  fun_induction go x mode p last output with
  | case1 => simp
  | case2 => simp
  | case3 p last output hlt c hpercent hdistance h1 h2 hvalid ih =>
    intro h
    have ⟨last', output', hle, hgo, hlen⟩ := ih (Nat.le_refl _) (by omega) h
    refine ⟨last', output', hle, ?_, hlen⟩
    have hdistance' : ¬(x ++ y).length - p < 3 := by
      rw [List.length_append]
      omega
    have hp0 := hlt' hlt
    have hp1 : p + 1 < (x ++ y).length := hlt' (by omega)
    have hp2 : p + 2 < (x ++ y).length := hlt' (by omega)
    have hc : (x ++ y)[p] = byteOf '%' := by
      rw [List.getElem_append_left hlt]
      exact hpercent
    have hh1 : hexValue (x ++ y)[p + 1] = h1 := by
      rw [List.getElem_append_left (by omega)]
    have hh2 : hexValue (x ++ y)[p + 2] = h2 := by
      rw [List.getElem_append_left (by omega)]
    rw [← hgo, ← @run_append x y last p hlast hp]
    conv => lhs; unfold go
    simp only [hp0, hc, hdistance', hh1, hh2, hvalid, ↓reduceDIte, ↓reduceIte]
  | case4 p last output hlt c hpercent hplus ih =>
    intro h
    have ⟨last', output', hle, hgo, hlen⟩ := ih (Nat.le_refl _) (by omega) h
    refine ⟨last', output', hle, ?_, hlen⟩
    rw [← hgo, ← @run_append x y last p hlast hp, hplus.2]
    apply go_plus (hlt' hlt)
    rw [List.getElem_append_left hlt]
    exact hplus.1
  | case5 p last output hlt c hpercent hplus ih =>
    intro h
    have ⟨last', output', hle, hgo, hlen⟩ := ih (by omega) (by omega) h
    refine ⟨last', output', hle, ?_, hlen⟩
    rw [← hgo]
    apply go_passthrough (hlt' hlt)
    . rw [List.getElem_append_left hlt]
      exact hpercent
    . rw [List.getElem_append_left hlt]
      exact hplus
  | case6 p last output hge =>
    intro _
    have heq : p = x.length := by omega
    refine ⟨last, output, by omega, by rw [heq], ?_⟩
    rw [List.length_append, length_run hp, heq]

theorem uriUnescape_take_ne {input s : List UInt8} {mode : EscapeMode} {n : Nat}
    (h : uriUnescape input mode = .ok s) (hn : n < input.length)
    : uriUnescape (input.take n) mode ≠ .ok s := by
  have hok {input : List UInt8} (h : uriUnescape input mode = .ok s)
      : uriUnescapeTo.go input mode 0 0 [] = ⟨none, s⟩ := by
    unfold uriUnescape uriUnescapeTo at h
    split at h
    . contradiction
    . next output hgo =>
      injection h with h
      rw [hgo, h]
  intro htake
  have hsplit := List.take_append_drop n input
  have hfirst := hok htake
  have ⟨last, output, hlast, hgo, hlen⟩ := @uriUnescapeTo.go_prefix (input.take n) (input.drop n) mode
    0 0 [] (Nat.le_refl 0) (Nat.zero_le _) (by rw [hfirst])
  rw [hsplit, hok h, List.length_take_of_le (by omega)] at hgo
  rw [List.length_take_of_le (by omega)] at hlast hlen
  have hgrows := @uriUnescapeTo.length_go input mode n last output hlast (by omega) (by rw [← hgo])
  rw [← hgo, if_pos hn] at hgrows
  rw [hfirst] at hlen
  dsimp only at hlen hgrows
  omega

theorem zero_not_mem_percentEncode (v : UInt8) : 0 ∉ percentEncode v := by
  have hdigit : ∀ n : Fin 16, 0 ≠ kHexValues.getD n 0 := by decide
  have hpercent : 0 ≠ byteOf '%' := by decide
  have hhigh := hdigit ⟨_, shiftRight_toNat_lt v⟩
  have hlow := hdigit ⟨_, and_toNat_lt v⟩
  unfold percentEncode
  simp only [List.mem_cons, List.not_mem_nil, or_false, not_or]
  exact ⟨hpercent, hhigh, hlow⟩

theorem zero_not_mem_escapeByte (v : UInt8) : 0 ∉ escapeByte .all v := by
  unfold escapeByte
  split
  . next hclass =>
    rw [List.mem_singleton]
    intro hzero
    rw [← hzero, uriEscapeClass_eq] at hclass
    revert hclass
    decide
  . split
    . next h => simp at h
    . apply zero_not_mem_percentEncode

theorem zero_not_mem_uriEscape (s : List UInt8) : 0 ∉ uriEscape s .all := by
  rw [uriEscape_eq, List.mem_flatMap]
  intro ⟨v, _, hv⟩
  exact zero_not_mem_escapeByte v hv

def isUnreserved (v : UInt8) : Prop :=
  (byteOf 'A' ≤ v ∧ v ≤ byteOf 'Z') ∨
  (byteOf 'a' ≤ v ∧ v ≤ byteOf 'z') ∨
  (byteOf '0' ≤ v ∧ v ≤ byteOf '9') ∨
  v ∈ ['-', '_', '.', '~'].map byteOf

instance (v : UInt8) : Decidable (isUnreserved v) := by
  unfold isUnreserved
  infer_instance

def upperHexDigit (n : Nat) : UInt8 :=
  if n < 10 then UInt8.ofNat (0x30 + n) else UInt8.ofNat (0x41 + (n - 10))

def documentedByte (mode : EscapeMode) (v : UInt8) : List UInt8 :=
  if isUnreserved v then
    [v]
  else if v = byteOf '/' ∧ mode = .path then
    [v]
  else if v = byteOf ' ' ∧ mode = .query then
    [byteOf '+']
  else
    [byteOf '%', upperHexDigit (v.toNat / 16), upperHexDigit (v.toNat % 16)]

def documentedEscape (s : List UInt8) (mode : EscapeMode) : List UInt8 :=
  s.flatMap (documentedByte mode)

-- The upper ends that `range` leaves out of the table.
def isRangeEnd (v : UInt8) : Prop := v ∈ ['9', 'Z', 'z'].map byteOf

instance (v : UInt8) : Decidable (isRangeEnd v) := by
  unfold isRangeEnd
  infer_instance

theorem kHexValues_getD : ∀ n < 16, kHexValues.getD n 0 = upperHexDigit n := by decide

theorem percentEncode_eq (v : UInt8)
    : percentEncode v = [byteOf '%', upperHexDigit (v.toNat / 16), upperHexDigit (v.toNat % 16)] := by
  have hlt := v.toNat_lt
  unfold percentEncode
  rw [toNat_highNibble, toNat_lowNibble, kHexValues_getD _ (by omega), kHexValues_getD _ (by omega)]

theorem mem_passthrough {i : Nat}
    : i ∈ EscapeTables.passthrough
        ↔ 48 ≤ i ∧ i < 57 ∨ 65 ≤ i ∧ i < 90 ∨ 97 ≤ i ∧ i < 122 ∨ i = 45 ∨ i = 95 ∨ i = 46 ∨ i = 126 := by
  unfold EscapeTables.passthrough EscapeTables.range
  simp [EscapeTables.ord]

theorem isUnreserved_iff {v : UInt8}
    : isUnreserved v
        ↔ 48 ≤ v.toNat ∧ v.toNat ≤ 57 ∨ 65 ≤ v.toNat ∧ v.toNat ≤ 90 ∨ 97 ≤ v.toNat ∧ v.toNat ≤ 122
          ∨ v.toNat = 45 ∨ v.toNat = 95 ∨ v.toNat = 46 ∨ v.toNat = 126 := by
  unfold isUnreserved
  simp [byteOf, UInt8.le_iff_toNat_le, ← UInt8.toNat_inj]
  omega

theorem isRangeEnd_iff {v : UInt8}
    : isRangeEnd v ↔ v.toNat = 57 ∨ v.toNat = 90 ∨ v.toNat = 122 := by
  unfold isRangeEnd
  simp [byteOf, ← UInt8.toNat_inj]

theorem mem_passthrough_iff {v : UInt8} (h : ¬isRangeEnd v)
    : v.toNat ∈ EscapeTables.passthrough ↔ isUnreserved v := by
  rw [isRangeEnd_iff] at h
  rw [mem_passthrough, isUnreserved_iff]
  omega

theorem uriEscapeClass_of_not_isRangeEnd
    : ∀ v : UInt8, ¬isRangeEnd v → uriEscapeClass v =
        if isUnreserved v then 0 else if v = byteOf '/' then 2 else if v = byteOf ' ' then 3 else 4
    := by
  intro v hv
  rw [uriEscapeClass_eq]
  unfold EscapeTables.uriEscapeEntry
  simp only [mem_passthrough_iff hv, eq_byteOf_iff (show '/'.toNat < 256 by decide),
    eq_byteOf_iff (show ' '.toNat < 256 by decide)]

theorem uriEscapeClass_of_isRangeEnd
    : ∀ v : UInt8, isRangeEnd v → uriEscapeClass v = 4 ∧ isUnreserved v ∧ v ≠ byteOf '%' := by
  intro v hv
  rw [uriEscapeClass_eq]
  unfold isRangeEnd at hv
  simp only [List.map_cons, List.map_nil, List.mem_cons, List.not_mem_nil, or_false] at hv
  cases hv with
  | inl hnine =>
    rw [hnine]
    decide
  | inr hv =>
    cases hv with
    | inl hupper =>
      rw [hupper]
      decide
    | inr hlower =>
      rw [hlower]
      decide

theorem escapeByte_of_not_isRangeEnd (mode : EscapeMode) {v : UInt8} (h : ¬isRangeEnd v)
    : escapeByte mode v = documentedByte mode v := by
  have hclass := uriEscapeClass_of_not_isRangeEnd v h
  unfold escapeByte documentedByte
  rw [percentEncode_eq, hclass]
  by_cases hunreserved : isUnreserved v
  . have hzero : (0 : UInt8) ≤ mode.value := UInt8.zero_le
    simp [hunreserved, hzero]
  . by_cases hslash : v = byteOf '/'
    . rw [hslash]
      cases mode <;> decide
    . by_cases hspace : v = byteOf ' '
      . rw [hspace]
        cases mode <;> decide
      . have hfour := mode.not_four_le_value
        simp [hunreserved, hslash, hspace, hfour]

theorem escapeByte_of_isRangeEnd (mode : EscapeMode) {v : UInt8} (h : isRangeEnd v)
    : escapeByte mode v = percentEncode v ∧ documentedByte mode v = [v] ∧ v ≠ byteOf '%' := by
  have ⟨hclass, hunreserved, hpercent⟩ := uriEscapeClass_of_isRangeEnd v h
  unfold escapeByte documentedByte
  rw [hclass, if_neg mode.not_four_le_value, if_pos hunreserved]
  simp [hpercent]

theorem uriEscape_documented_iff (s : List UInt8) (mode : EscapeMode)
    : uriEscape s mode = documentedEscape s mode ↔ ∀ v ∈ s, ¬isRangeEnd v := by
  rw [uriEscape_eq, documentedEscape]
  induction s with
  | nil => simp
  | cons v s ih =>
    rw [List.flatMap_cons, List.flatMap_cons, List.forall_mem_cons, ← ih]
    by_cases hend : isRangeEnd v
    . have ⟨hescape, hdocumented, hpercent⟩ := escapeByte_of_isRangeEnd mode hend
      rw [hescape, hdocumented]
      constructor
      . intro heq
        injection heq with hhead
        apply absurd hhead.symm hpercent
      . intro h
        apply absurd hend h.1
    . rw [escapeByte_of_not_isRangeEnd mode hend, List.append_cancel_left_eq]
      simp [hend]

theorem not_uriEscape_documented
    : ¬∀ s mode, uriEscape s mode = documentedEscape s mode := by
  intro h
  have hnine := h [byteOf '9'] .all
  rw [uriEscape_eq, List.flatMap_singleton, escapeByte, uriEscapeClass_eq] at hnine
  revert hnine
  decide

end Claire
