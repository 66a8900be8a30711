import Mathlib.Data.List.Basic

/-!
This module contains the functions that write a string to a file and that read a file into a string.
What the C library does is an argument: the n-th call of each of its functions may do less than it is
asked for, or fail. The messages that are logged are left out.
-/

namespace Claire
namespace FileUtil

inductive Status where
  | kOk
  | kIOError
  deriving DecidableEq, Repr

def Status.isNonzero (s : Status) : Bool := s ≠ .kOk

structure CLibrary where
  fopenSucceeds : Bool
  -- How many bytes a call accepts at most
  fwriteAccepts : Nat → Nat
  -- After how many bytes at most a call fails
  freadFails : Nat → Option Nat
  fcloseSucceeds : Nat → Bool
  unlinkSucceeds : Bool

-- `accepted` is what the stream has taken so far, `fwrites` and `fcloses` are the calls on it.
structure WritableFile where
  accepted : List UInt8
  fwrites : Nat
  fcloses : List Bool
  writtenBytes : Nat
  deriving DecidableEq, Repr

namespace WritableFile

variable (lib : CLibrary)

def create : WritableFile where
  accepted := []
  fwrites := 0
  fcloses := []
  writtenBytes := 0

def fwrite (file : WritableFile) (data : List UInt8) : Nat × WritableFile :=
  let n := min (lib.fwriteAccepts file.fwrites) data.length
  (n, { file with accepted := file.accepted ++ data.take n, fwrites := file.fwrites + 1 })

def fclose (file : WritableFile) : Bool × WritableFile :=
  let succeeds := lib.fcloseSucceeds file.fcloses.length
  (succeeds, { file with fcloses := file.fcloses ++ [succeeds] })

-- `while (n < data.length())`, a round accepts a byte at least.
def appendFrom (file : WritableFile) (data : List UInt8) (n : Nat) : Status × WritableFile :=
  if n < data.length then
    let (x, file) := file.fwrite lib (data.drop n)
    if x = 0 then
      (.kIOError, { file with writtenBytes := file.writtenBytes + n })
    else
      appendFrom file data (n + x)
  else
    (.kOk, { file with writtenBytes := file.writtenBytes + n })
termination_by data.length - n

def append (file : WritableFile) (data : List UInt8) : Status × WritableFile :=
  let (n, file) := file.fwrite lib data
  file.appendFrom lib data n

-- A call of `fwrite`: where in the data it starts, how many bytes it is asked for, and how many of
-- them it accepts
structure Fwrite where
  offset : Nat
  length : Nat
  accepted : Nat
  deriving DecidableEq, Repr

def appendFromLogged (file : WritableFile) (calls : List Fwrite) (data : List UInt8) (n : Nat)
    : (Status × WritableFile) × List Fwrite :=
  if n < data.length then
    let (x, file) := file.fwrite lib (data.drop n)
    let calls := calls ++ [⟨n, data.length - n, x⟩]
    if x = 0 then
      ((.kIOError, { file with writtenBytes := file.writtenBytes + n }), calls)
    else
      appendFromLogged file calls data (n + x)
  else
    ((.kOk, { file with writtenBytes := file.writtenBytes + n }), calls)
termination_by data.length - n

def appendLogged (file : WritableFile) (data : List UInt8) : (Status × WritableFile) × List Fwrite :=
  let (n, file) := file.fwrite lib data
  file.appendFromLogged lib [⟨0, data.length, n⟩] data n

def close (file : WritableFile) : Status × WritableFile :=
  let (succeeds, file) := file.fclose lib
  if succeeds then (.kOk, file) else (.kIOError, file)

def destroy (file : WritableFile) : WritableFile := (file.fclose lib).2

end WritableFile

variable (lib : CLibrary)

def newWritableFile : Status × Option WritableFile :=
  if lib.fopenSucceeds then (.kOk, some .create) else (.kIOError, none)

def deleteFile : Status := if lib.unlinkSucceeds then .kOk else .kIOError

-- What becomes of the file: what it was written with, and whether it was deleted
structure Written where
  file : WritableFile
  deleted : Bool
  deriving DecidableEq, Repr

def writeStringToFile (data : List UInt8) : Status × Option Written :=
  match newWritableFile lib with
  | (s, none) => (s, none)
  | (_, some file) =>
    let (s, file) := file.append lib data
    let (s, file) := if s.isNonzero then file.close lib else (s, file)
    let file := file.destroy lib
    let deleted := s.isNonzero && deleteFile lib = .kOk
    (s, some ⟨file, deleted⟩)

structure SequentialFile where
  rest : List UInt8
  freads : Nat
  feof : Bool
  fcloses : Nat
  deriving DecidableEq, Repr

namespace SequentialFile

def create (content : List UInt8) : SequentialFile where
  rest := content
  freads := 0
  feof := false
  fcloses := 0

-- A call that fails reads less than `n` bytes, any other one only at the end of the file.
def fread (file : SequentialFile) (n : Nat) : List UInt8 × SequentialFile :=
  let fails := lib.freadFails file.freads
  let r := fails.elim n (min · (n - 1))
  (file.rest.take r, { file with
    rest := file.rest.drop r, freads := file.freads + 1,
    feof := file.feof || (fails.isNone && file.rest.length < n) })

def read (file : SequentialFile) (n : Nat) : Status × List UInt8 × SequentialFile :=
  let (fragment, file) := file.fread lib n
  let s := if fragment.length < n ∧ !file.feof then .kIOError else .kOk
  (s, fragment, file)

def destroy (file : SequentialFile) : SequentialFile := { file with fcloses := file.fcloses + 1 }

theorem length_rest_read {file : SequentialFile} {n : Nat} (h : (file.read lib n).2.1 ≠ [])
    : (file.read lib n).2.2.rest.length < file.rest.length := by
  simp only [read, fread, ne_eq, List.take_eq_nil_iff, List.length_drop] at h ⊢
  have hpos := List.length_pos_iff.mpr (not_or.mp h).2
  omega

end SequentialFile

def newSequentialFile (content : List UInt8) : Status × Option SequentialFile :=
  if lib.fopenSucceeds then (.kOk, some (.create content)) else (.kIOError, none)

def spaceSize : Nat := 8192

-- `while (true)`, with the status that the loop leaves behind
def readFrom (file : SequentialFile) (data : List UInt8) : Status × List UInt8 × SequentialFile :=
  let res := file.read lib spaceSize
  if res.1.isNonzero then
    (res.1, data, res.2.2)
  else if _hempty : res.2.1 = [] then
    (res.1, data, res.2.2)
  else
    readFrom res.2.2 (data ++ res.2.1)
termination_by file.rest.length
decreasing_by
  apply SequentialFile.length_rest_read
  assumption

def readFileToString (content : List UInt8) : Status × List UInt8 × Option SequentialFile :=
  match newSequentialFile lib content with
  | (s, none) => (s, [], none)
  | (_, some file) =>
    let (_, data, file) := readFrom lib file []
    (.kOk, data, some file.destroy)

end FileUtil
end Claire
