import ClaireCommon.Logging.Impl.LogBuffer
import ClaireCommon.Strings.Impl.CString
import ClaireCommon.Strings.Impl.StringUtil

/-!
This module contains the stream that formats a log line into a small buffer. Here the buffer has its
memory, whose addresses count from `data_`, so that a write behind its end can be seen.

What the C library makes of a `double` is an argument, and so is the conversion from `float`.
-/

namespace Claire

structure RawBuffer (size : Nat) where
  memory : Memory
  current : Nat

namespace RawBuffer

variable {size : Nat}

-- What the memory holds at first is left open.
def create (cells : Nat → UInt8) : RawBuffer size where
  memory := .create cells
  current := 0

def length (b : RawBuffer size) : Nat := b.current

-- `end() - current_`
def avail (b : RawBuffer size) : Nat := (sizeT (size - b.current)).toNat

def append (b : RawBuffer size) (d : List UInt8) : RawBuffer size :=
  if b.avail > d.length then
    { memory := b.memory.copy b.current d, current := b.current + d.length }
  else if b.avail > 0 then
    { memory := b.memory.copy b.current (d.take b.avail), current := b.current + b.avail }
  else
    b

def add (b : RawBuffer size) (l : Nat) : RawBuffer size := { b with current := b.current + l }

end RawBuffer

namespace IntType

def Value.widen {t : IntType} (value : t.Value) (u : IntType) (hmin : u.min ≤ t.min)
    (hmax : t.max ≤ u.max) : u.Value where
  val := value.val
  min_le := Int.le_trans hmin value.min_le
  le_max := Int.le_trans value.le_max hmax

end IntType

inductive LogFormat where
  | kNormal
  | kHex
  deriving DecidableEq, Repr

structure LogStream where
  buffer : RawBuffer kSmallBuffer
  format : LogFormat

namespace LogStream

def create (cells : Nat → UInt8) : LogStream where
  buffer := .create cells
  format := .kNormal

def kMaxNumericSize : Nat := 32

def append (s : LogStream) (msg : List UInt8) : LogStream :=
  match s.format with
  | .kNormal => { s with buffer := s.buffer.append msg }
  | .kHex =>
    let (memory, n) := hexString s.buffer.current s.buffer.avail s.buffer.memory msg
    { s with buffer := { s.buffer with memory := memory }.add n }

def formatInteger {t : IntType} (s : LogStream) (v : t.Value) : LogStream :=
  if s.buffer.avail ≥ kMaxNumericSize then
    let (memory, len) := intToBuffer s.buffer.memory s.buffer.current v
    { s with buffer := { s.buffer with memory := memory }.add len }
  else
    s

def formatPointer (s : LogStream) (v : IntType.unsignedLong.Value) : LogStream :=
  if s.buffer.avail ≥ kMaxNumericSize then
    let current := s.buffer.current
    let memory := (s.buffer.memory.write current 0x30).write (current + 1) 0x78
    let (memory, ret) := hexToBuffer memory (current + 2) v
    { s with buffer := { s.buffer with memory := memory }.add (ret + 2) }
  else
    s

-- What `<<` takes, a floating point number by its bits
inductive Operand where
  | bool (v : Bool)
  | char (v : UInt8)
  | short (v : IntType.short.Value)
  | unsignedShort (v : IntType.unsignedShort.Value)
  | int (v : IntType.int.Value)
  | unsignedInt (v : IntType.unsignedInt.Value)
  | long (v : IntType.long.Value)
  | unsignedLong (v : IntType.unsignedLong.Value)
  | longLong (v : IntType.longLong.Value)
  | unsignedLongLong (v : IntType.unsignedLongLong.Value)
  | pointer (v : IntType.unsignedLong.Value)
  | float (v : UInt32)
  | double (v : UInt64)
  | cString (v : CString)
  | stringPiece (s : List UInt8)
  | string (s : List UInt8)
  | format (format : LogFormat)

section

variable (text : UInt64 → List UInt8) (toDouble : UInt32 → UInt64)

-- `text` is what `"%.12g"` asks for, of which `snprintf` puts 31 bytes into `buf` at most.
def formatDouble (s : LogStream) (v : UInt64) : LogStream :=
  if s.buffer.avail ≥ kMaxNumericSize then
    s.append (Claire.cString ((text v).take 31))
  else
    s

def put (s : LogStream) : Operand → LogStream
  | .bool v => { s with buffer := s.buffer.append [if v then 0x31 else 0x30] }
  | .char v => { s with buffer := s.buffer.append [v] }
  | .short v => s.formatInteger (v.widen .int (by decide) (by decide))
  | .unsignedShort v => s.formatInteger (v.widen .unsignedInt (by decide) (by decide))
  | .int v => s.formatInteger v
  | .unsignedInt v => s.formatInteger v
  | .long v => s.formatInteger v
  | .unsignedLong v => s.formatInteger v
  | .longLong v => s.formatInteger v
  | .unsignedLongLong v => s.formatInteger v
  | .pointer v => s.formatPointer v
  | .float v => s.formatDouble text (toDouble v)
  | .double v => s.formatDouble text v
  | .cString v => s.append v.bytes
  | .stringPiece v => s.append v
  | .string v => s.append v
  | .format format => { s with format := format }

def puts (s : LogStream) (operands : List Operand) : LogStream :=
  operands.foldl (put text toDouble) s

end

end LogStream
end Claire
