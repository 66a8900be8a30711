import ClaireCommon.Lib.Occurrence
import ClaireCommon.Strings.Impl.StringPiece

/-!
This module contains the search for a piece or a character in a piece and the operations that cut
pieces. What `std::search`, `std::find_end` and `std::find` return is defined on the bytes of the ranges
they are given.
-/

namespace Claire

namespace Env

variable (env : Env)

def bytesOf (first last : Ptr) : Reader (List UInt8) :=
  env.peekMany first (StringPiece.distance first last)

def search (first last sFirst sLast : Ptr) : Reader Ptr := do
  let bytes ← env.bytesOf first last
  let sBytes ← env.bytesOf sFirst sLast
  return first.add (Occurrence.search sBytes bytes)

-- An empty sequence is not found.
def findEnd (first last sFirst sLast : Ptr) : Reader Ptr := do
  let bytes ← env.bytesOf first last
  let sBytes ← env.bytesOf sFirst sLast
  if sBytes = [] then return last else return first.add (Occurrence.findEnd sBytes bytes)

def find (first last : Ptr) (c : UInt8) : Reader Ptr := do
  let bytes ← env.bytesOf first last
  return first.add (bytes.idxOf c)

end Env

namespace StringPiece

variable (env : Env)

def npos : Nat := 2 ^ 64 - 1

def substr (t : StringPiece) (pos n : Nat) : StringPiece :=
  let pos := if pos > t.size then t.size else pos
  let n := if n > t.size - pos then t.size - pos else n
  ⟨t.data.add pos, n⟩

def find (t s : StringPiece) (pos : Nat) : Reader Nat := do
  if pos > t.size then
    return npos
  else
    let result ← env.search (t.data.add pos) t.stop s.data s.stop
    let xpos := distance t.data result
    return if sizeT (xpos + s.size) ≤ t.size then xpos else npos

def rfind (t s : StringPiece) (pos : Nat) : Reader Nat := do
  if t.size < s.size then
    return npos
  else
    let ulen := t.size
    if s.size = 0 then
      return min ulen pos
    else
      let last := t.data.add (min (ulen - s.size) pos + s.size)
      let result ← env.findEnd t.data last s.data s.stop
      return if result ≠ last then distance t.data result else npos

def findChar (t : StringPiece) (c : UInt8) (pos : Nat) : Reader Nat := do
  if t.size = 0 ∨ pos ≥ t.size then
    return npos
  else
    let result ← env.find (t.data.add pos) t.stop c
    return if result ≠ t.stop then distance t.data result else npos

-- `for (; i >= 0; --i)`, the argument is `i + 1`.
def rfindCharFrom (t : StringPiece) (c : UInt8) : Nat → Reader Nat
  | 0 => return npos
  | i + 1 => do
    let byte ← env.peek (t.data.add i)
    if byte = c then return i else rfindCharFrom t c i

-- `rfind` with a `char`, whose `i` is an `int`
def rfindChar (t : StringPiece) (c : UInt8) (pos : Nat) : Reader Nat :=
  if t.size = 0 then
    return npos
  else
    let i := int32 (min pos (t.size - 1) : Nat)
    rfindCharFrom env t c (i + 1).toNat

def removePrefix (t : StringPiece) (n : Nat) : Reader StringPiece := do
  env.dassert (n ≤ t.size)
  return ⟨t.data.add n, (sizeT (t.size - n)).toNat⟩

def removeSuffix (t : StringPiece) (n : Nat) : Reader StringPiece := do
  env.dassert (n ≤ t.size)
  return ⟨t.data, (sizeT (t.size - n)).toNat⟩

-- What `copy` returns and the bytes it writes to the buffer
def copy (t : StringPiece) (n pos : Nat) : Reader (Nat × List UInt8) := do
  let ret := min (sizeT (t.size - pos)).toNat n
  let bytes ← env.peekMany (t.data.add pos) ret
  return (ret, bytes)

end StringPiece
end Claire
