import ClaireCommon.Lib.UnorderedMap
import ClaireCommon.Metrics.Impl.Counter

/-!
This module contains threads that count: their calls of `Add` and of the methods that are made of
it, which interleave access by access, and what the `CounterProvider` tells of the values.
-/

namespace Claire
namespace CounterProvider

def getNamedCounterValue (p : CounterProvider) (name : String) : Int × CounterProvider :=
  let (counterId, p) := p.getCounterId name
  if counterId = 0 then
    (0, p)
  else
    (p.getCounterValue counterId, p)

def getSnapshot (p : CounterProvider) : UnorderedMap String Int :=
  p.counters.foldl (fun snapshot counter =>
    snapshot.insert counter.1 (p.getCounterValue counter.2)) .empty

end CounterProvider

namespace Counter

inductive Operation where
  | add (value : Int)
  | increment
  | decrement
  | subtract (value : Int)
  deriving DecidableEq, Repr

def Operation.delta : Operation → Int
  | add value => value
  | increment => 1
  | decrement => -1
  | subtract value => int32 (-value)

-- What a call of `Add` does next, `counter_id_` is read anew each time.
inductive Access where
  | test
  | lookup
  | store (counterId : Int)
  | check
  | locate
  | load (loc : Int)
  | write (loc old : Int)
  | ignore
  deriving DecidableEq, Repr

structure Call where
  k : Nat
  value : Int
  access : Access
  deriving DecidableEq, Repr

end Counter

structure Counting where
  process : Process
  calls : Int → Option Counter.Call

namespace Counting

open Counter

def create (maxThreads maxCounters : Int) (data : Int → Int) : Option Counting :=
  match Process.create maxThreads maxCounters data with
  | some process => some { process := process, calls := fun _ => none }
  | none => none

inductive Label where
  | createThread (tid : Int)
  | createCounter (name : String)
  | getCounterId (name : String)
  | call (tid : Int) (k : Nat) (operation : Operation)
  | access (tid : Int)
  | ret (tid : Int) (name : String) (delta : Int)
  deriving DecidableEq

def goOn (s : Counting) (process : Process) (tid : Int) (call : Option Call) : Counting where
  process := process
  calls := Function.update s.calls tid call

-- The access of `call` to the counter `c` with what is to be done then
def access (s : Process) (tid slot : Int) (c : Counter) (call : Call) : Option (Access × Process) :=
  match call.access with
  | .test => some (if c.counterId = -1 then .lookup else .check, s)
  | .lookup =>
    let (counterId, provider) := s.provider.getCounterId c.name
    some (.store counterId, { s with provider := provider })
  | .store counterId =>
    some (.check, { s with counters := s.counters.set call.k { c with counterId := counterId } })
  | .check => some (if c.counterId > 0 then .locate else .ignore, s)
  | .locate =>
    let (loc, s) := s.getLocation tid slot c.counterId
    some (.load loc, s)
  | .load loc => some (.write loc (s.provider.data loc), s)
  | .write _ _ | .ignore => none

def finish (s : Process) (call : Call) : Option Process :=
  match call.access with
  | .write loc old => some (s.write loc (.set (int32 (old + call.value))))
  | .ignore => some s
  | _ => none

def step (s : Counting) : Label → Option Counting
  | .createThread tid => do
    let process ← s.process.step (.createThread tid)
    return { s with process := process }
  | .createCounter name => do
    let process ← s.process.step (.createCounter name)
    return { s with process := process }
  | .getCounterId name => do
    let process ← s.process.step (.getCounterId name)
    return { s with process := process }
  | .call tid k operation =>
    match s.process.threads tid, s.process.counters[k]?, s.calls tid with
    | some _, some _, none => some (s.goOn s.process tid (some ⟨k, operation.delta, .test⟩))
    | _, _, _ => none
  | .access tid =>
    match s.process.threads tid, s.calls tid with
    | some slot, some call => do
      let c ← s.process.counters[call.k]?
      let (access, process) ← access s.process tid slot c call
      return s.goOn process tid (some { call with access := access })
    | _, _ => none
  | .ret tid name delta =>
    match s.calls tid with
    | some call => do
      let c ← s.process.counters[call.k]?
      let process ← finish s.process call
      if c.name = name ∧ call.value = delta then
        return s.goOn process tid none
      else
        none
    | none => none

abbrev run (s : Counting) (labels : List Label) : Option Counting :=
  Machine.run step s labels

def callers (labels : List Label) : List Int :=
  labels.filterMap fun
    | .call tid _ _ => some tid
    | _ => none

def deltas (labels : List Label) (name : String) : List Int :=
  labels.filterMap fun
    | .ret _ name' delta => if name' = name then some delta else none
    | _ => none

end Counting
end Claire
