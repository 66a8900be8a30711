import ClaireCommon.Symbolizer.Impl.Dwarf
import ClaireCommon.Symbolizer.Lemmas.Read

/-!
This module contains the attribute forms of DWARF: how each of them encodes its values in bytes. The
code of the reader is not used here, only the names it gives to the numbers of the forms.
-/

namespace Claire
namespace Dwarf

open Bytes

inductive DirectForm where
  | addr
  | block1
  | block2
  | block4
  | block
  | exprloc
  | data1
  | data2
  | data4
  | data8
  | ref1
  | ref2
  | ref4
  | ref8
  | sdata
  | udata
  | refUdata
  | flag
  | flagPresent
  | secOffset
  | refAddr
  | string
  | strp
  deriving DecidableEq, Repr

inductive Layout where
  | number (width : Nat)
  | block (width : Nat)
  | lebBlock
  | unsigned
  | signed
  | present
  | text
  | textOffset (width : Nat)
  deriving DecidableEq, Repr

-- A value of a form, strings are the bytes before the zero.
inductive Value where
  | number (n : Int)
  | bytes (bytes : List UInt8)

def offsetWidth (is64Bits : Bool) : Nat := if is64Bits then 8 else 4

namespace DirectForm

def code : DirectForm → Nat
  | addr => DW_FORM_addr
  | block1 => DW_FORM_block1
  | block2 => DW_FORM_block2
  | block4 => DW_FORM_block4
  | block => DW_FORM_block
  | exprloc => DW_FORM_exprloc
  | data1 => DW_FORM_data1
  | data2 => DW_FORM_data2
  | data4 => DW_FORM_data4
  | data8 => DW_FORM_data8
  | ref1 => DW_FORM_ref1
  | ref2 => DW_FORM_ref2
  | ref4 => DW_FORM_ref4
  | ref8 => DW_FORM_ref8
  | sdata => DW_FORM_sdata
  | udata => DW_FORM_udata
  | refUdata => DW_FORM_ref_udata
  | flag => DW_FORM_flag
  | flagPresent => DW_FORM_flag_present
  | secOffset => DW_FORM_sec_offset
  | refAddr => DW_FORM_ref_addr
  | string => DW_FORM_string
  | strp => DW_FORM_strp

def layout (is64Bits : Bool) : DirectForm → Layout
  | addr => .number 8
  | block1 => .block 1
  | block2 => .block 2
  | block4 => .block 4
  | block | exprloc => .lebBlock
  | data1 | ref1 | flag => .number 1
  | data2 | ref2 => .number 2
  | data4 | ref4 => .number 4
  | data8 | ref8 => .number 8
  | sdata => .signed
  | udata | refUdata => .unsigned
  | flagPresent => .present
  | secOffset | refAddr => .number (offsetWidth is64Bits)
  | string => .text
  | strp => .textOffset (offsetWidth is64Bits)

def isBlock (form : DirectForm) : Bool :=
  form ∈ [block1, block2, block4, block, exprloc]

end DirectForm

inductive Form where
  | direct (form : DirectForm)
  | indirect (form : Form)
  deriving DecidableEq, Repr

namespace Form

def code : Form → Nat
  | direct form => form.code
  | indirect _ => DW_FORM_indirect

def innermost : Form → DirectForm
  | direct form => form
  | indirect form => form.innermost

end Form

structure StringAt (env : Env) (offset : Nat) (text : List UInt8) : Prop where
  terminated : Terminated env ⟨.debugStr, offset⟩ text
  within : offset + text.length < (debugSection env .debugStr).size

inductive Layout.Encodes (env : Env) : Layout → Value → List UInt8 → Prop
  | number {width n : Nat} (h : n < 256 ^ width)
      : Encodes env (.number width) (.number n) (toLittleEndian width n)
  | block {width : Nat} {bytes : List UInt8} (h : bytes.length < 256 ^ width)
      : Encodes env (.block width) (.bytes bytes) (toLittleEndian width bytes.length ++ bytes)
  | lebBlock {len bytes : List UInt8} (leb : IsLeb64 len) (h : Bytes.unsigned len = bytes.length)
      : Encodes env .lebBlock (.bytes bytes) (len ++ bytes)
  | unsigned {bytes : List UInt8} (leb : IsLeb64 bytes) (h : Bytes.unsigned bytes < 2 ^ 64)
      : Encodes env .unsigned (.number (Bytes.unsigned bytes)) bytes
  | signed {bytes : List UInt8} (leb : IsLeb64 bytes) (hlo : -2 ^ 63 ≤ Bytes.signed bytes)
      (hhi : Bytes.signed bytes < 2 ^ 63)
      : Encodes env .signed (.number (Bytes.signed bytes)) bytes
  | present : Encodes env .present (.number 1) []
  | text {text : List UInt8} (h : 0 ∉ text) : Encodes env .text (.bytes text) (text ++ [0])
  | textOffset {width offset : Nat} {text : List UInt8} (h : offset < 256 ^ width)
      (hoffset : StringAt env offset text)
      : Encodes env (.textOffset width) (.bytes text) (toLittleEndian width offset)

inductive Form.Encodes (env : Env) (is64Bits : Bool) : Form → Value → List UInt8 → Prop
  | direct {form : DirectForm} {value : Value} {bytes : List UInt8}
      (h : (form.layout is64Bits).Encodes env value bytes)
      : Encodes env is64Bits (.direct form) value bytes
  | indirect {form : Form} {value : Value} {code bytes : List UInt8} (leb : IsLeb64 code)
      (hcode : Bytes.unsigned code = form.code) (h : form.Encodes env is64Bits value bytes)
      : Encodes env is64Bits (.indirect form) value (code ++ bytes)

-- What the reader returns for a value: a `uint64_t`, or a piece with the bytes
inductive AttributeValue.Represents (env : Env) : AttributeValue → Value → Prop
  | uint64 {value : Nat} {n : Int} (h : (value : Int) = n % 2 ^ 64)
      : Represents env (.uint64 value) (.number n)
  | stringPiece {s : StringPiece} {bytes : List UInt8} (h : s.Covers env bytes)
      : Represents env (.stringPiece s) (.bytes bytes)

end Dwarf
end Claire
