import ClaireCommon.Base.Types

/-!
This module contains the functions that append formatted text to a string. The C library's `vsnprintf`
with the format and its arguments is a parameter.
-/

namespace Claire
namespace StringPrintf

-- What a call leaves behind, with no `errno` where it leaves it as it was
structure Printed where
  result : Int
  errno : Option Int
  buffer : List UInt8

abbrev Vsnprintf := (n size : Nat) → Printed

def eOverflow : Int := 75

def stackSize : Nat := 1024

def maxLength : Nat := 32 * 1024 * 1024

inductive IntOverflow where
  | addition
  deriving DecidableEq, Repr

def Printed.fits (printed : Printed) (size : Nat) : Bool := 0 ≤ printed.result ∧ printed.result < size

def Printed.text (printed : Printed) : List UInt8 := printed.buffer.take printed.result.toNat

def Printed.errnoAfter (printed : Printed) (errno : Int) : Int := printed.errno.getD errno

-- `errno` is never cleared, it can be older than the call.
def Printed.givesUp (printed : Printed) (errno : Int) : Bool :=
  printed.result < 0 ∧ printed.errnoAfter errno ≠ 0 ∧ printed.errnoAfter errno ≠ eOverflow

-- The new `mem_length`, none where another buffer does not help
def nextLength (printed : Printed) (errno : Int) (memLength : Nat) : Except IntOverflow (Option Nat) :=
  if printed.givesUp errno then
    .ok none
  else if printed.result < 0 then
    .ok (some (memLength * 2))
  else if printed.result = intMax then
    .error .addition
  else
    .ok (some (printed.result + 1).toNat)

-- `printed` is call `n`, made with the `errno`, and `none` is for a loop that needs more rounds.
def appendLoop (vsnprintf : Vsnprintf) (dst : List UInt8)
    : (rounds n memLength : Nat) → (errno : Int) → Printed → Option (Except IntOverflow (List UInt8))
  | 0, _, _, _, _ => none
  | rounds + 1, n, memLength, errno, printed =>
    match nextLength printed errno memLength with
    | .error overflow => some (.error overflow)
    | .ok none => some (.ok dst)
    | .ok (some memLength) =>
      if memLength > maxLength then
        some (.ok dst)
      else
        let errno := printed.errnoAfter errno
        let printed := vsnprintf (n + 1) memLength
        if printed.fits memLength then
          some (.ok (dst ++ printed.text))
        else
          appendLoop vsnprintf dst rounds (n + 1) memLength errno printed

def stringAppendV (vsnprintf : Vsnprintf) (rounds : Nat) (errno : Int) (dst : List UInt8)
    : Option (Except IntOverflow (List UInt8)) :=
  let printed := vsnprintf 0 stackSize
  if printed.fits stackSize then
    some (.ok (dst ++ printed.text))
  else
    appendLoop vsnprintf dst rounds 0 stackSize errno printed

def stringPrintV (vsnprintf : Vsnprintf) (rounds : Nat) (errno : Int)
    : Option (Except IntOverflow (List UInt8)) :=
  stringAppendV vsnprintf rounds errno []

end StringPrintf
end Claire
