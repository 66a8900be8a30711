import ClaireCommon.Lib.Condition
import ClaireCommon.Threading.Impl.ThreadPool

/-!
This module contains the thread pool with its mutex and its two conditions: who of the workers and of
the callers of `Run` waits in `pthread_cond_wait` for a signal, and whom a signal has reached.

Critical sections are atomic, except that `running_` can change between the test of it in `Take` and the
wait: a worker keeps the mutex after `waitNotEmpty` until `block`. A thread that `wakeNotEmpty` or
`wakeNotFull` lets go on has the mutex again when it looks at the queue.
-/

namespace Claire
namespace ThreadPool

universe u v

structure Monitor (τ : Type u) (ι : Type v) where
  pool : ThreadPool τ ι
  -- The worker that has the mutex in order to wait
  lock : Option Nat
  notEmpty : Condition Nat
  notFull : Condition (Thread ι)

namespace Monitor

variable {τ : Type u} {ι : Type v}

def create (maxQueueSize : Nat) : Monitor τ ι where
  pool := init maxQueueSize
  lock := none
  notEmpty := .empty
  notFull := .empty

inductive Label (τ : Type u) (ι : Type v) where
  | pool (label : ThreadPool.Label τ ι)
  -- `push` and `take` with the thread that their signal goes to
  | push (t : Thread ι) (context : TraceContext) (task : Option τ) (worker : Option Nat)
  | take (i : Nat) (entry : Entry τ) (caller : Option (Thread ι))
  | block (i : Nat)
  | notifyAll (k : Nat)

variable [DecidableEq ι] [DecidableEq τ]

def push (s : Monitor τ ι) (t : Thread ι) (context : TraceContext) (task : Option τ)
    (worker : Option Nat) : Option (Monitor τ ι) :=
  match s.pool.step (.push t context task), s.notEmpty.notify worker with
  | some pool, some notEmpty =>
    some { s with pool := pool, notEmpty := notEmpty, notFull := s.notFull.back t }
  | _, _ => none

def take (s : Monitor τ ι) (i : Nat) (entry : Entry τ) (caller : Option (Thread ι))
    : Option (Monitor τ ι) :=
  match s.pool.step (.take i entry) with
  | some pool =>
    let s := { s with pool := pool, notEmpty := s.notEmpty.back i }
    if pool.maxQueueSize > 0 then
      match s.notFull.notify caller with
      | some notFull => some { s with notFull := notFull }
      | none => none
    else
      some s
  | none => none

def notifyAll (s : Monitor τ ι) (k : Nat) : Option (Monitor τ ι) :=
  match s.pool.step (.control k) with
  | some pool => some { s with pool := pool, notEmpty := s.notEmpty.notifyAll }
  | none => none

-- A step of the pool without a signal
def goOn (s : Monitor τ ι) (pool : ThreadPool τ ι) : ThreadPool.Label τ ι → Option (Monitor τ ι)
  | .push _ _ _ | .take _ _ => none
  | .control k =>
    if s.pool.controls[k]? = some .notifying then none else some { s with pool := pool }
  | .waitNotFull t =>
    if s.lock = none then some { s with pool := pool, notFull := s.notFull.wait t } else none
  | .wakeNotFull t => some { s with pool := pool, notFull := s.notFull.wake t }
  | .takeNothing i =>
    if s.lock = none then some { s with pool := pool, notEmpty := s.notEmpty.back i } else none
  | .waitNotEmpty i =>
    if s.lock = none then
      some { s with pool := pool, lock := some i, notEmpty := s.notEmpty.back i }
    else
      none
  | .wakeNotEmpty i =>
    if s.lock = some i then none else some { s with pool := pool, notEmpty := s.notEmpty.wake i }
  | _ => some { s with pool := pool }

def step (s : Monitor τ ι) : Label τ ι → Option (Monitor τ ι)
  | .pool label =>
    match s.pool.step label with
    | some pool => s.goOn pool label
    | none => none
  | .push t context task worker =>
    if s.lock = none then s.push t context task worker else none
  | .take i entry caller => if s.lock = none then s.take i entry caller else none
  | .block i =>
    if s.lock = some i then some { s with lock := none, notEmpty := s.notEmpty.wait i } else none
  | .notifyAll k =>
    if s.lock = none ∧ s.pool.controls[k]? = some .notifying then s.notifyAll k else none

abbrev run (s : Monitor τ ι) (labels : List (Label τ ι)) : Option (Monitor τ ι) :=
  Machine.run step s labels

end Monitor
end ThreadPool
end Claire
