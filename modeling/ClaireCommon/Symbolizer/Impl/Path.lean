import ClaireCommon.Lib.Memory
import ClaireCommon.Symbolizer.Impl.Read

/-!
This module contains the three ways to render a path. The parts are read from the memory of the
sections, the buffer of `ToBuffer` lies in a memory of its own.

A `std::string` that becomes too long throws, the result is `none` then.
-/

namespace Claire
namespace Dwarf

def stringMaxSize : Nat := 2 ^ 63 - 1

namespace Path

variable (env : Env) (path : Path)

def nonempty (s : StringPiece) : Nat := if s.isEmpty then 0 else 1

def size : Nat :=
  (path.baseDir.size + nonempty path.subDir + path.subDir.size + nonempty path.file
    + path.file.size) % 2 ^ 64

structure Output where
  memory : Memory
  buf : Nat
  bufSize : Nat
  totalSize : Nat

-- The macro `Append`, for a piece of this size and the function that reads its first bytes
def append (size : Nat) (read : Nat → Reader (List UInt8)) (out : Output) : Reader Output :=
  let totalSize := (out.totalSize + size) % 2 ^ 64
  if out.bufSize ≥ 2 then do
    let toCopy := min size (out.bufSize - 1)
    let bytes ← read toCopy
    return {
      memory := out.memory.copy out.buf bytes, buf := out.buf + toCopy
      bufSize := out.bufSize - toCopy, totalSize := totalSize }
  else
    return { out with totalSize := totalSize }

def appendPiece (s : StringPiece) (out : Output) : Reader Output :=
  append s.size (env.peekMany s.data) out

def appendSlash (out : Output) : Reader Output := append 1 (fun n => return [0x2f].take n) out

def baseDirToBuffer (out : Output) : Reader Output :=
  if path.baseDir.isEmpty then return out else appendPiece env path.baseDir out

def subDirToBuffer (out : Output) : Reader Output :=
  if path.subDir.isEmpty then
    return out
  else do
    env.dassert !path.baseDir.isEmpty
    let out ← appendSlash out
    appendPiece env path.subDir out

def fileToBuffer (out : Output) : Reader Output :=
  if path.file.isEmpty then
    return out
  else do
    let out ← appendSlash out
    appendPiece env path.file out

def toBuffer (memory : Memory) (buf bufSize : Nat) : Reader (Memory × Nat) := do
  let out := { memory := memory, buf := buf, bufSize := bufSize, totalSize := 0 }
  let out ← path.baseDirToBuffer env out
  let out ← path.subDirToBuffer env out
  let out ← path.fileToBuffer env out
  let memory := if out.bufSize ≠ 0 then out.memory.write out.buf 0 else out.memory
  env.dassert (out.totalSize = path.size)
  return (memory, out.totalSize)

-- `reserve`, `append` and `push_back` throw instead of going beyond the maximum.
def fitting (dest : List UInt8) : Option (List UInt8) :=
  if dest.length ≤ stringMaxSize then some dest else none

def pieceToString (s : StringPiece) (dest : List UInt8) : Reader (Option (List UInt8)) := do
  let bytes ← env.peekMany s.data s.size
  return fitting (dest ++ bytes)

def slashedToString (s : StringPiece) (dest : List UInt8) : Reader (Option (List UInt8)) :=
  match fitting (dest ++ [0x2f]) with
  | some dest => pieceToString env s dest
  | none => return none

def baseDirToString (dest : List UInt8) : Reader (Option (List UInt8)) :=
  if path.baseDir.isEmpty then return some dest else pieceToString env path.baseDir dest

def subDirToString : Option (List UInt8) → Reader (Option (List UInt8))
  | none => return none
  | some dest =>
    if path.subDir.isEmpty then
      return some dest
    else do
      env.dassert !path.baseDir.isEmpty
      slashedToString env path.subDir dest

def fileToString : Option (List UInt8) → Reader (Option (List UInt8))
  | none => return none
  | some dest => if path.file.isEmpty then return some dest else slashedToString env path.file dest

def checkSize (initialSize : Nat) : Option (List UInt8) → Reader (Option (List UInt8))
  | none => return none
  | some dest => do
    env.dcheck (dest.length = (initialSize + path.size) % 2 ^ 64)
    return some dest

def toString (dest : List UInt8) : Reader (Option (List UInt8)) :=
  if (dest.length + path.size) % 2 ^ 64 ≤ stringMaxSize then do
    let result ← path.baseDirToString env dest
    let result ← path.subDirToString env result
    let result ← path.fileToString env result
    path.checkSize env dest.length result
  else
    return none

end Path
end Dwarf
end Claire
