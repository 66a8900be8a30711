import Mathlib.Data.List.TakeWhile

/-!
This module contains strings that end with a NUL.
-/

namespace Claire

structure CString where
  bytes : List UInt8
  nonzero : 0 ∉ bytes
  deriving DecidableEq

theorem CString.bytes_inj {s t : CString} : s.bytes = t.bytes ↔ s = t := by
  cases s
  cases t
  simp

-- What a `const char*` into `bytes` stands for, a NUL follows them
def cString (bytes : List UInt8) : List UInt8 := bytes.takeWhile (· ≠ 0)

theorem cString_eq_self {bytes : List UInt8} : cString bytes = bytes ↔ 0 ∉ bytes := by
  unfold cString
  rw [List.takeWhile_eq_self_iff]
  constructor
  . intro h hzero
    have := h 0 hzero
    simp at this
  . intro h byte hbyte
    have hne : byte ≠ 0 := by
      intro heq
      rw [heq] at hbyte
      exact h hbyte
    simpa using hne

end Claire
