import ClaireCommon.Lib.Bytes
import ClaireCommon.Strings.Impl.StringPiece

/-!
This module contains the functions that read from a `StringPiece` and advance it. The advanced piece
is returned next to what was read. Unsigned numbers are natural numbers below the power of two of
their width.

A loop that reads a byte in each round is given one round more than its block has mapped bytes.
-/

namespace Claire
namespace Dwarf

variable (env : Env)

def rounds (s : StringPiece) : Nat := (env.mapped s.data.block).length + 1

-- `Read<T>` for an unsigned `T` of `n` bytes
def read (n : Nat) (s : StringPiece) : Reader (Nat × StringPiece) := do
  Reader.check (s.size ≥ n)
  let bytes ← env.peekMany s.data n
  let s' ← s.advance env n
  Traced.emit (.read s s' n)
  return (Bytes.littleEndian bytes, s')

structure ULEB where
  r : Nat
  shift : Nat
  s : StringPiece

def readULEBRound (u : ULEB) : Reader (ULEB ⊕ (Nat × ULEB)) := do
  let (val, s) ← read env 1 u.s
  if u.shift ≥ 64 then
    Traced.stop .shiftTooWide
  else
    let r := u.r ||| (((val &&& 0x7f) <<< u.shift) % 2 ^ 64)
    let u := { r := r, shift := (u.shift + 7) % 256, s := s }
    return if val &&& 0x80 ≠ 0 then .inl u else .inr (val, u)

-- `ReadULEB` with the `shift` and `val` it leaves behind
def readULEBFull (s : StringPiece) : Reader (Nat × ULEB) :=
  Traced.loop .stuck (readULEBRound env) (rounds env s) { r := 0, shift := 0, s := s }

def readULEB (s : StringPiece) : Reader (Nat × StringPiece) := do
  let (_, u) ← readULEBFull env s
  return (u.r, u.s)

def readSLEB (s : StringPiece) : Reader (Int × StringPiece) := do
  let (val, u) ← readULEBFull env s
  let r :=
    if u.shift < 64 ∧ val &&& 0x40 ≠ 0 then
      u.r ||| (2 ^ 64 - 1 <<< u.shift)
    else
      u.r
  return (int64 r, u.s)

def readOffset (s : StringPiece) (is64Bits : Bool) : Reader (Nat × StringPiece) :=
  if is64Bits then read env 8 s else read env 4 s

def readBytes (s : StringPiece) (len : Nat) : Reader (StringPiece × StringPiece) := do
  Reader.check (len ≥ s.size)
  let ret := ⟨s.data, len⟩
  let s ← s.advance env len
  return (ret, s)

def readNullTerminated (s : StringPiece) : Reader (StringPiece × StringPiece) := do
  match ← env.memchr s.data 0 s.size with
  | some p =>
    let ret ← StringPiece.ofRange env s.data p
    return (ret, StringPiece.assign (p.add 1) s.stop)
  | none => Traced.stop .check

def skipPadding (s : StringPiece) (start : Ptr) (alignment : Nat) : Reader StringPiece := do
  let remainder := StringPiece.distance start s.data % alignment
  if remainder ≠ 0 then
    Reader.check (alignment - remainder ≤ s.size)
    s.advance env (alignment - remainder)
  else
    return s

-- `for (; p != s.end() && *p == '/'; ++p);`, at most `n` bytes lie before the end.
def skipSlashes (p : Ptr) : Nat → Reader Ptr
  | 0 => return p
  | n + 1 => do
    let byte ← env.peek p
    if byte = 0x2f then skipSlashes (p.add 1) n else return p

-- `for (; q != p && q[-1] == '/'; --q);`, `n` bytes lie between `p` and `q`.
def dropSlashes (p : Ptr) : Nat → Reader Ptr
  | 0 => return p
  | n + 1 => do
    let byte ← env.peek (p.add n)
    if byte = 0x2f then dropSlashes p n else return p.add (n + 1)

def stripSlashes (s : StringPiece) (keepInitialSlash : Bool) : Reader StringPiece := do
  if s.isEmpty then
    return s
  else
    let p ← skipSlashes env s.data s.size
    let q ← dropSlashes env p (s.stop.offset - p.offset)
    let p := if keepInitialSlash ∧ p ≠ s.data then { p with offset := p.offset - 1 } else p
    return StringPiece.assign p q

structure Path where
  baseDir : StringPiece
  subDir : StringPiece
  file : StringPiece
  deriving DecidableEq, Repr

namespace Path

def empty : Path := ⟨.null, .null, .null⟩

def startsWithSlash (s : StringPiece) : Reader Bool := do
  let byte ← env.peek s.data
  return byte = 0x2f

def isAbsolute (s : StringPiece) : Reader Bool :=
  if s.isEmpty then pure false else startsWithSlash env s

def clearDirs (path : Path) (fileIsAbsolute : Bool) : Path :=
  if fileIsAbsolute then { path with baseDir := .null, subDir := .null } else path

def clearBaseDir (path : Path) (subDirIsAbsolute : Bool) : Path :=
  if subDirIsAbsolute then { path with baseDir := .null } else path

def fillBaseDir (path : Path) : Path :=
  if path.baseDir.isEmpty then
    { path with baseDir := path.subDir, subDir := path.baseDir }
  else
    path

-- The constructor before `StripSlashes`
def normalize (path : Path) : Reader Path := do
  let fileIsAbsolute ← startsWithSlash env path.file
  let path := path.clearDirs fileIsAbsolute
  let subDirIsAbsolute ← isAbsolute env path.subDir
  return (path.clearBaseDir subDirIsAbsolute).fillBaseDir

def create (baseDir subDir file : StringPiece) : Reader Path := do
  if file.isEmpty then
    return ⟨.null, .null, file⟩
  else
    let path ← normalize env ⟨baseDir, subDir, file⟩
    let baseDir ← stripSlashes env path.baseDir true
    let subDir ← stripSlashes env path.subDir false
    let file ← stripSlashes env path.file false
    return ⟨baseDir, subDir, file⟩

end Path

structure Section where
  is64Bits : Bool
  data : StringPiece

namespace Section

def create (d : StringPiece) : Section := ⟨false, d⟩

def readUnitLength (initialLength : Nat) (is64Bits : Bool) (chunk : StringPiece)
    : Reader (Nat × StringPiece) :=
  if is64Bits then read env 8 chunk else pure (initialLength, chunk)

-- `none` where the source returns `false`
def next (section_ : Section) : Reader (Option StringPiece × Section) := do
  let chunk := section_.data
  if chunk.isEmpty then
    return (none, section_)
  else
    let (initialLength, chunk) ← read env 4 chunk
    let is64Bits : Bool := initialLength = 2 ^ 32 - 1
    let (length, chunk) ← readUnitLength env initialLength is64Bits chunk
    Reader.check (length ≤ chunk.size)
    let chunk : StringPiece := ⟨chunk.data, length⟩
    return (some chunk, ⟨is64Bits, StringPiece.assign chunk.stop section_.data.stop⟩)

end Section
end Dwarf
end Claire
