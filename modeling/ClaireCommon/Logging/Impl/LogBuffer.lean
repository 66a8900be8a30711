import Mathlib.Data.List.Basic

/-!
This module contains the buffer of fixed size that takes log messages. What lies behind `current_` is
left out.
-/

namespace Claire

def kSmallBuffer : Nat := 4096

def kLargeBuffer : Nat := 4096 * 1000

structure LogBuffer (size : Nat) where
  data : List UInt8
  length_le : data.length ≤ size

namespace LogBuffer

variable {size : Nat}

def create : LogBuffer size where
  data := []
  length_le := Nat.zero_le size

def length (buffer : LogBuffer size) : Nat := buffer.data.length

def avail (buffer : LogBuffer size) : Nat := size - buffer.length

def append (buffer : LogBuffer size) (d : List UInt8) : LogBuffer size :=
  if h : buffer.avail > d.length then
    { data := buffer.data ++ d
      length_le := by
        unfold avail length at h
        rw [List.length_append]
        omega }
  else
    { data := buffer.data ++ d.take buffer.avail
      length_le := by
        have := buffer.length_le
        unfold avail length
        rw [List.length_append, List.length_take]
        omega }

def reset (_ : LogBuffer size) : LogBuffer size := create

end LogBuffer
end Claire
