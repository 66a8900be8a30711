import Mathlib.Data.List.Infix

/-!
This module contains URI escaping and its tables. A `StringPiece` is the list of its bytes here, the
iterators `p` and `last` are positions in it.
-/

namespace Claire

inductive EscapeMode where
  | all
  | query
  | path
  deriving DecidableEq, Repr

def EscapeMode.value : EscapeMode → UInt8
  | all => 0
  | query => 1
  | path => 2

inductive InvalidArgument where
  | incompletePercentEncodeSequence
  | invalidPercentEncodeSequence
  deriving DecidableEq, Repr

namespace EscapeTables

def ord (c : Char) : Nat := c.toNat

-- `range` of Python 2 leaves its upper end out.
def range (lo hi : Nat) : List Nat := List.range' lo (hi - lo)

def passthrough : List Nat :=
  range (ord '0') (ord '9') ++
  range (ord 'A') (ord 'Z') ++
  range (ord 'a') (ord 'z') ++
  ['-', '_', '.', '~'].map ord

def uriEscapeEntry (i : Nat) : UInt8 :=
  if i ∈ passthrough then
    0
  else if i = ord '/' then
    2
  else if i = ord ' ' then
    3
  else
    4

def hexEntry (i : Nat) : UInt8 :=
  if i ≥ ord '0' ∧ i ≤ ord '9' then
    UInt8.ofNat (i - ord '0')
  else if i ≥ ord 'a' ∧ i ≤ ord 'f' then
    UInt8.ofNat (i - ord 'a' + 10)
  else if i ≥ ord 'A' ∧ i ≤ ord 'F' then
    UInt8.ofNat (i - ord 'A' + 10)
  else
    16

end EscapeTables

@[irreducible]
def kUriEscapeTable : Vector UInt8 256 := Vector.ofFn fun i => EscapeTables.uriEscapeEntry i

@[irreducible]
def kHexTable : Vector UInt8 256 := Vector.ofFn fun i => EscapeTables.hexEntry i

def uriEscapeClass (v : UInt8) : UInt8 := kUriEscapeTable.get v.toFin

def hexValue (c : UInt8) : UInt8 := kHexTable.get c.toFin

def byteOf (c : Char) : UInt8 := UInt8.ofNat c.toNat

def kHexValues : List UInt8 := "0123456789ABCDEF".toList.map byteOf

-- The bytes that `output->append(&*last, p - last)` copies
def run (input : List UInt8) (last p : Nat) : List UInt8 := (input.drop last).take (p - last)

-- `esc` for the byte `v`
def percentEncode (v : UInt8) : List UInt8 :=
  [byteOf '%', kHexValues.getD (v >>> 4).toNat 0, kHexValues.getD (v &&& 0x0f).toNat 0]

def uriEscapeTo (input output : List UInt8) (mode : EscapeMode) : List UInt8 :=
  go 0 0 output
where
  go (p last : Nat) (output : List UInt8) : List UInt8 :=
    if h : p < input.length then
      let v := input[p]
      let discriminator := uriEscapeClass v
      if discriminator ≤ mode.value then
        go (p + 1) last output
      else if mode = .query ∧ discriminator = 3 then
        go (p + 1) (p + 1) (output ++ run input last p ++ [byteOf '+'])
      else
        go (p + 1) (p + 1) (output ++ run input last p ++ percentEncode v)
    else
      output ++ run input last p
  termination_by input.length - p

def uriEscape (input : List UInt8) (mode : EscapeMode) : List UInt8 := uriEscapeTo input [] mode

-- What `*output` holds when `UriUnescape` returns or throws
structure Unescaped where
  exception : Option InvalidArgument
  output : List UInt8
  deriving DecidableEq, Repr

def uriUnescapeTo (input output : List UInt8) (mode : EscapeMode) : Unescaped :=
  go 0 0 output
where
  go (p last : Nat) (output : List UInt8) : Unescaped :=
    if h : p < input.length then
      let c := input[p]
      if c = byteOf '%' then
        if hdistance : input.length - p < 3 then
          ⟨some .incompletePercentEncodeSequence, output⟩
        else
          let h1 := hexValue input[p + 1]
          let h2 := hexValue input[p + 2]
          if h1 = 16 ∨ h2 = 16 then
            ⟨some .invalidPercentEncodeSequence, output⟩
          else
            go (p + 3) (p + 3) (output ++ run input last p ++ [(h1 <<< 4) ||| h2])
      else if c = byteOf '+' ∧ mode = .query then
        go (p + 1) (p + 1) (output ++ run input last p ++ [byteOf ' '])
      else
        go (p + 1) last output
    else
      ⟨none, output ++ run input last p⟩
  termination_by input.length - p

def uriUnescape (input : List UInt8) (mode : EscapeMode) : Except InvalidArgument (List UInt8) :=
  match uriUnescapeTo input [] mode with
  | ⟨some exception, _⟩ => .error exception
  | ⟨none, output⟩ => .ok output

end Claire
