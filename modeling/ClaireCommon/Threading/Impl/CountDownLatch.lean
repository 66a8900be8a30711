import ClaireCommon.Lib.Guarded

/-!
This module contains the latch that counts down: the critical sections of its functions, on the counter.
-/

namespace Claire

universe v

namespace CountDownLatch

open Guarded

inductive Operation where
  | wait
  | countDown
  | count
  deriving DecidableEq

inductive Result where
  | wait
  | countDown
  | count (count : BitVec 32)
  deriving DecidableEq

def wait (count : BitVec 32) : Section (BitVec 32) Result :=
  if count.toInt > 0 then .wait else .finish count .wait .nobody

-- The counter wraps around where the `int` of the code base would overflow.
def countDown (count : BitVec 32) : Section (BitVec 32) Result :=
  let count := count - 1
  .finish count .countDown (if count = 0 then .everybody else .nobody)

def count (count : BitVec 32) : Section (BitVec 32) Result := .finish count (.count count) .nobody

def body : Operation → BitVec 32 → Section (BitVec 32) Result
  | .wait => wait
  | .countDown => countDown
  | .count => count

end CountDownLatch

abbrev CountDownLatch (ω : Type v) : Type v :=
  Guarded ω CountDownLatch.Operation CountDownLatch.Result (BitVec 32)

namespace CountDownLatch

variable {ω : Type v}

abbrev Label (ω : Type v) : Type v := Guarded.Label ω Operation Result

def create (c : BitVec 32) : CountDownLatch ω := .init c

abbrev run [DecidableEq ω] (s : CountDownLatch ω) (labels : List (Label ω))
    : Option (CountDownLatch ω) :=
  Guarded.run body s labels

end CountDownLatch
end Claire
