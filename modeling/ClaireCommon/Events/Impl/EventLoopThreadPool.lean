import Mathlib.Data.List.Basic

/-!
This module contains how the pool of event loops hands out its loops. `ℓ` are the loops.

All functions run in the thread of the base loop.
-/

namespace Claire

structure EventLoopThreadPool (ℓ : Type) where
  baseLoop : ℓ
  started : Bool
  numThreads : Int
  next : Nat
  loops : List ℓ

namespace EventLoopThreadPool

variable {ℓ : Type} [DecidableEq ℓ]

def create (baseLoop : ℓ) : EventLoopThreadPool ℓ where
  baseLoop := baseLoop
  started := false
  numThreads := 0
  next := 0
  loops := []

inductive Label (ℓ : Type) where
  | setNumThreads (numThreads : Int)
  | start (created : List ℓ)
  | nextLoop (loop : ℓ)

-- Without DCHECKs a second call starts threads once more.
def start (dchecks : Bool) (p : EventLoopThreadPool ℓ) (created : List ℓ)
    : Option (EventLoopThreadPool ℓ) :=
  if dchecks ∧ p.started then
    none
  else if created.length = p.numThreads.toNat then
    some { p with started := true, loops := p.loops ++ created }
  else
    none

-- `none` for an access past the end of `loops_`
def nextLoop (p : EventLoopThreadPool ℓ) : Option (ℓ × EventLoopThreadPool ℓ) :=
  if p.loops = [] then
    some (p.baseLoop, p)
  else
    match p.loops[p.next]? with
    | none => none
    | some loop =>
      let next := if p.next + 1 ≥ p.loops.length then 0 else p.next + 1
      some (loop, { p with next := next })

def step (dchecks : Bool) (p : EventLoopThreadPool ℓ) : Label ℓ → Option (EventLoopThreadPool ℓ)
  | .setNumThreads numThreads => some { p with numThreads := numThreads }
  | .start created => p.start dchecks created
  | .nextLoop loop =>
    match p.nextLoop with
    | some (loop', p) => if loop = loop' then some p else none
    | none => none

def nextLoops (p : EventLoopThreadPool ℓ) : Nat → Option (List ℓ × EventLoopThreadPool ℓ)
  | 0 => some ([], p)
  | n + 1 =>
    match p.nextLoop with
    | none => none
    | some (loop, p) =>
      match p.nextLoops n with
      | none => none
      | some (loops, p) => some (loop :: loops, p)

end EventLoopThreadPool
end Claire
