import ClaireCommon.Symbolizer.Forms

/-!
This module contains what `ReadAttributeValue` makes of an encoded value: it undoes the encoding for
every form but the blocks.
-/

namespace Claire
namespace Dwarf

open Bytes Traced

variable {env : Env}

theorem debugSection_size_lt (block : Block) : (debugSection env block).size < 2 ^ 64 := by
  have hlt := (env.mapping block).length_lt
  rw [List.length_append] at hlt
  exact Nat.lt_of_le_of_lt (Nat.le_add_right _ _) hlt

-- `CHECK(len >= s.size())`, where `s` still has the size it had before the length was read
theorem readBytes_eq_error {s : StringPiece} {len : Nat} (h : len < s.size)
    : (readBytes env s len).result = .error .check := by
  unfold readBytes
  apply And.left
  apply bind_of_error
  simp [Reader.check, Nat.not_le.mpr h]

theorem getStringFromStringSection_of_stringAt {offset : Nat} {text : List UInt8}
    (h : StringAt env offset text)
    : (getStringFromStringSection env offset).result
        = .ok ⟨⟨.debugStr, offset⟩, text.length⟩ := by
  have hwithin := h.within
  unfold getStringFromStringSection
  rw [result_bind_of_ok (a := ⟨⟩)]
  . rw [result_bind_of_ok (StringPiece.advance_eq_ok.mpr ⟨Or.inr (by omega), rfl⟩)]
    rw [result_bind_of_ok ((readNullTerminated_eq_ok _).mpr ⟨text, _, _, rfl, rfl⟩)]
    . simp [debugSection, Ptr.add]
    . exact debugSection_size_lt .debugStr
    . simpa [debugSection, Ptr.add] using h.terminated
    . dsimp only
      omega
  . apply Env.dcheck_eq_ok.mpr
    right
    simpa using (by omega : offset < (debugSection env .debugStr).size)

def readLayout (env : Env) (s : StringPiece) : Layout → Reader (AttributeValue × StringPiece)
  | .number width => readNumber env width s
  | .block width => readBlock env width s
  | .lebBlock => do
    let (len, s) ← readULEB env s
    let (ret, s) ← readBytes env s len
    return (.stringPiece ret, s)
  | .unsigned => do
    let (value, s) ← readULEB env s
    return (.uint64 value, s)
  | .signed => do
    let (value, s) ← readSLEB env s
    return (.uint64 (sizeT value).toNat, s)
  | .present => return (.uint64 1, s)
  | .text => do
    let (ret, s) ← readNullTerminated env s
    return (.stringPiece ret, s)
  | .textOffset width => do
    let (offset, s) ← read env width s
    let ret ← getStringFromStringSection env offset
    return (.stringPiece ret, s)

theorem readDirectValue_code (s : StringPiece) (form : DirectForm) (is64Bits : Bool)
    : readDirectValue env s form.code is64Bits = readLayout env s (form.layout is64Bits) := by
  cases form <;> cases is64Bits <;> rfl

def Layout.isBlock : Layout → Bool
  | .block _ | .lebBlock => true
  | _ => false

theorem DirectForm.isBlock_layout (form : DirectForm) (is64Bits : Bool)
    : (form.layout is64Bits).isBlock = form.isBlock := by
  cases form <;> rfl

theorem DirectForm.width_le {form : DirectForm} {is64Bits : Bool} {width : Nat}
    (h : form.layout is64Bits = .number width) : width ≤ 8 := by
  cases form <;> cases is64Bits <;> simp [layout, offsetWidth] at h <;> omega

theorem represents_number {n : Nat} (h : n < 2 ^ 64)
    : (AttributeValue.uint64 n).Represents env (.number n) := by
  apply AttributeValue.Represents.uint64
  omega

def Reads (env : Env) (read : Reader (AttributeValue × StringPiece)) (value : Value) (rest : Ptr)
    : Prop :=
  ∃ val s', read.result = .ok (val, s') ∧ val.Represents env value ∧ s'.data = rest

theorem readLayout_of_encodes {layout : Layout} {value : Value} {bytes : List UInt8}
    {s : StringPiece} (h : layout.Encodes env value bytes) (hblock : layout.isBlock = false)
    (hwidth : ∀ width, layout = .number width → width ≤ 8) (hbytes : env.Holds s.data bytes)
    (hlen : bytes.length < s.size) (hsize : s.size < 2 ^ 64)
    : Reads env (readLayout env s layout) value (s.data.add bytes.length) := by
  cases h with
  | @number width n hn =>
    rw [length_toLittleEndian] at *
    refine ⟨.uint64 n, ⟨s.data.add width, s.size⟩, ?_, ?_, rfl⟩
    . dsimp only [readLayout, readNumber]
      rw [result_bind_of_ok (read_toLittleEndian hbytes hn hlen)]
      rfl
    . apply represents_number
      apply Nat.lt_of_lt_of_le hn
      have hpow : 256 ^ width ≤ 256 ^ 8 := Nat.pow_le_pow_right (by omega) (hwidth width rfl)
      exact hpow
  | block => contradiction
  | lebBlock => contradiction
  | unsigned leb hlt =>
    have hpos := leb.isLeb.length_pos
    refine ⟨.uint64 (Bytes.unsigned bytes), ⟨s.data.add bytes.length, s.size⟩, ?_, ?_, rfl⟩
    . dsimp only [readLayout]
      rw [result_bind_of_ok (readULEB_of_holds leb hbytes (by omega)), Nat.mod_eq_of_lt hlt]
      rfl
    . apply represents_number hlt
  | signed leb hlo hhi =>
    have hpos := leb.isLeb.length_pos
    refine ⟨.uint64 (sizeT (Bytes.signed bytes)).toNat, ⟨s.data.add bytes.length, s.size⟩, ?_, ?_, rfl⟩
    . dsimp only [readLayout]
      rw [result_bind_of_ok (readSLEB_of_holds leb hbytes (by omega)), int64_of_range hlo hhi]
      rfl
    . apply AttributeValue.Represents.uint64
      unfold sizeT
      omega
  | present =>
    refine ⟨.uint64 1, s, rfl, ?_, rfl⟩
    exact represents_number (by omega)
  | @text text hnonzero =>
    rw [List.length_append, List.length_singleton] at *
    refine ⟨.stringPiece ⟨s.data, text.length⟩,
      ⟨s.data.add (text.length + 1), s.size - (text.length + 1)⟩, ?_, ?_, rfl⟩
    . dsimp only [readLayout]
      rw [result_bind_of_ok ((readNullTerminated_eq_ok hsize).mpr
        ⟨text, ⟨hbytes, hnonzero⟩, by omega, rfl, rfl⟩)]
      rfl
    . apply AttributeValue.Represents.stringPiece
      exact ⟨(Env.holds_append.mp hbytes).1, rfl⟩
  | @textOffset width offset text hn hoffset =>
    rw [length_toLittleEndian] at *
    refine ⟨.stringPiece ⟨⟨.debugStr, offset⟩, text.length⟩, ⟨s.data.add width, s.size⟩, ?_, ?_, rfl⟩
    . dsimp only [readLayout]
      rw [result_bind_of_ok (read_toLittleEndian hbytes hn hlen)]
      dsimp only
      rw [result_bind_of_ok (getStringFromStringSection_of_stringAt hoffset)]
      rfl
    . apply AttributeValue.Represents.stringPiece
      exact ⟨(Env.holds_append.mp hoffset.terminated.holds).1, rfl⟩

theorem readLayout_eq_error {layout : Layout} {value : Value} {bytes : List UInt8}
    {s : StringPiece} (h : layout.Encodes env value bytes) (hblock : layout.isBlock = true)
    (hbytes : env.Holds s.data bytes) (hlen : bytes.length < s.size)
    : (readLayout env s layout).result = .error .check := by
  cases h with
  | @block width block hn =>
    have hlength := (Env.holds_append.mp hbytes).1
    rw [List.length_append, length_toLittleEndian] at hlen
    dsimp only [readLayout, readBlock]
    rw [result_bind_of_ok (read_toLittleEndian hlength hn (by omega))]
    apply (bind_of_error _ _).1
    apply readBytes_eq_error
    dsimp only
    omega
  | @lebBlock len block leb hn =>
    have hlength := (Env.holds_append.mp hbytes).1
    have hpos := leb.isLeb.length_pos
    rw [List.length_append] at hlen
    dsimp only [readLayout]
    rw [result_bind_of_ok (readULEB_of_holds leb hlength (by omega))]
    apply (bind_of_error _ _).1
    apply readBytes_eq_error
    have := Nat.mod_le (Bytes.unsigned len) (2 ^ 64)
    dsimp only
    omega
  | _ => contradiction

theorem Form.code_lt (form : Form) : form.code < 2 ^ 64 := by
  cases form with
  | direct form => cases form <;> decide
  | indirect form => exact (by decide : DW_FORM_indirect < 2 ^ 64)

theorem loop_readAttributeValueRound {form : Form} {value : Value} {bytes : List UInt8}
    {is64Bits : Bool} (h : form.Encodes env is64Bits value bytes) {s : StringPiece} {fuel : Nat}
    (hbytes : env.Holds s.data bytes) (hlen : bytes.length < s.size) (hfuel : bytes.length < fuel)
    : ∃ skipped rest, bytes = skipped ++ rest
        ∧ (form.innermost.layout is64Bits).Encodes env value rest
        ∧ (loop .stuck (readAttributeValueRound env is64Bits) fuel (s, form.code)).result
            = (readLayout env ⟨s.data.add skipped.length, s.size⟩
                (form.innermost.layout is64Bits)).result := by
  induction h generalizing s fuel with
  | @direct form value bytes h =>
    refine ⟨[], bytes, rfl, h, ?_⟩
    have hfuel' : fuel = (fuel - 1) + 1 := by omega
    have hcode : form.code ≠ DW_FORM_indirect := by cases form <;> decide
    rw [hfuel']
    apply loop_last
    dsimp only [Form.code, Form.innermost]
    rw [← readDirectValue_code]
    unfold readAttributeValueRound
    dsimp only
    rw [if_neg hcode]
    rfl
  | @indirect form value code bytes leb hcode h ih =>
    have ⟨hholds, hrest⟩ := Env.holds_append.mp hbytes
    have hpos := leb.isLeb.length_pos
    rw [List.length_append] at hlen hfuel
    have ⟨skipped, rest, heq, hencodes, hloop⟩ :=
      @ih ⟨s.data.add code.length, s.size⟩ (fuel - 1) hrest (by dsimp only; omega) (by omega)
    refine ⟨code ++ skipped, rest, ?_, hencodes, ?_⟩
    . rw [heq, List.append_assoc]
    . have hfuel' : fuel = (fuel - 1) + 1 := by omega
      rw [hfuel', loop_continue]
      . rw [hloop]
        simp [Form.innermost]
      . have hread := readULEB_of_holds leb hholds (by omega)
        have hlt : Bytes.unsigned code < 2 ^ 64 := by
          rw [hcode]
          exact form.code_lt
        rw [Nat.mod_eq_of_lt hlt, hcode] at hread
        unfold readAttributeValueRound
        dsimp only [Form.code]
        rw [if_pos rfl, result_bind_of_ok hread]
        rfl

theorem attributeValuesRead {form : Form} {value : Value} {bytes rest : List UInt8}
    {is64Bits : Bool} {s : StringPiece} (h : form.Encodes env is64Bits value bytes)
    (hrest : rest ≠ []) (hs : s.Covers env (bytes ++ rest))
    : Reads env (readAttributeValue env s form.code is64Bits) value (s.data.add bytes.length)
        ↔ form.innermost.isBlock = false := by
  have ⟨hbytes, hbehind⟩ := Env.holds_append.mp hs.holds
  have hend := hs.holds.end_le (by simp [hrest])
  have hpos := List.length_pos_iff.mpr hrest
  have hsize := hs.size
  rw [List.length_append] at hsize hend
  have ⟨skipped, inner, heq, hencodes, hloop⟩ :=
    @loop_readAttributeValueRound env _ _ _ _ h s (rounds env s) hbytes (by omega)
      (by unfold rounds; omega)
  rw [heq] at hbytes hsize
  have hinner := (Env.holds_append.mp hbytes).2
  rw [List.length_append] at hsize
  have hblock := form.innermost.isBlock_layout is64Bits
  rw [← hblock]
  constructor
  . intro ⟨val, s', hval, _⟩
    unfold readAttributeValue at hval
    rw [hloop] at hval
    cases hc : (form.innermost.layout is64Bits).isBlock with
    | false => rfl
    | true =>
      rw [readLayout_eq_error hencodes hc hinner (by dsimp only; omega)] at hval
      contradiction
  . intro hc
    have ⟨val, s', hval, hrepresents, hdata⟩ := readLayout_of_encodes
      (s := ⟨s.data.add skipped.length, s.size⟩) hencodes hc (fun _ => DirectForm.width_le) hinner
      (by dsimp only; omega) hs.size_lt
    refine ⟨val, s', ?_, hrepresents, ?_⟩
    . unfold readAttributeValue
      rw [hloop, hval]
    . rw [hdata, heq, Ptr.add_add, List.length_append]

def indirectData2 : Env := .ofSection .debugInfo [0x05, 0x34, 0x12, 0xff] (by decide)

theorem attributeValuesRead_indirect_data2
    : Reads indirectData2 (readAttributeValue indirectData2 ⟨⟨.debugInfo, 0⟩, 4⟩ DW_FORM_indirect false)
        (.number 0x1234) ⟨.debugInfo, 3⟩ := by
  have hencodes : (Form.indirect (.direct .data2)).Encodes indirectData2 false (.number 0x1234)
      [0x05, 0x34, 0x12] := by
    apply @Form.Encodes.indirect _ _ _ _ [0x05]
    . exact ⟨.last (by decide), by decide⟩
    . rfl
    . exact .direct (@Layout.Encodes.number _ 2 0x1234 (by decide))
  have hcovers : StringPiece.Covers indirectData2 ⟨⟨.debugInfo, 0⟩, 4⟩
      ([0x05, 0x34, 0x12] ++ [0xff]) :=
    ⟨⟨rfl, rfl, rfl, rfl, trivial⟩, rfl⟩
  exact (attributeValuesRead hencodes (by decide) hcovers).mpr rfl

-- The block is `0xaa`, the byte behind it is 0.
def block1 : Env := .ofSection .debugInfo [0x01, 0xaa, 0x00] (by decide)

theorem block1_not_read
    : (Form.direct .block1).Encodes block1 false (.bytes [0xaa]) [0x01, 0xaa]
        ∧ StringPiece.Covers block1 ⟨⟨.debugInfo, 0⟩, 3⟩ ([0x01, 0xaa] ++ [0x00])
        ∧ ¬Reads block1
            (readAttributeValue block1 ⟨⟨.debugInfo, 0⟩, 3⟩ (Form.direct .block1).code false)
            (.bytes [0xaa]) ⟨.debugInfo, 2⟩ := by
  refine ⟨?_, ⟨⟨rfl, rfl, rfl, trivial⟩, rfl⟩, ?_⟩
  . exact .direct (@Layout.Encodes.block _ 1 [0xaa] (by decide))
  . intro ⟨val, s', hval, _⟩
    have herror : (readAttributeValue block1 ⟨⟨.debugInfo, 0⟩, 3⟩ (Form.direct .block1).code
        false).result = .error .check := rfl
    rw [herror] at hval
    contradiction

end Dwarf
end Claire
