import Mathlib.Logic.Function.Basic
import ClaireCommon.Base.Types
import ClaireCommon.Lib.Machine

/-!
This module contains counters: the table of the `CounterProvider` with a row for each counter and a
column for each thread, and the threads and `Counter` objects of the process that use it.

A pointer into `data_` is its distance from the first cell. `data` also has the cells in front of
and behind the allocated ones. The maps `counters_` and `slots_` are lists in the order of the
insertions.
-/

namespace Claire

structure CounterProvider where
  maxThreads : Int
  maxCounters : Int
  counters : List (String × Int)
  slots : List (Int × Int)
  data : Int → Int

namespace CounterProvider

-- `new int[]` throws for a negative length. The cells are not initialized.
def create (maxThreads maxCounters : Int) (data : Int → Int) : Option CounterProvider :=
  if int32 (maxThreads * maxCounters) < 0 then
    none
  else
    some {
      maxThreads := maxThreads
      maxCounters := maxCounters
      counters := []
      slots := []
      data := data
    }

def getCounterId (p : CounterProvider) (name : String) : Int × CounterProvider :=
  match p.counters.lookup name with
  | some id => (id, p)
  | none =>
    if p.counters.length ≥ sizeT p.maxCounters then
      (0, p)
    else
      let id := int32 (p.counters.length + 1)
      (id, { p with counters := p.counters ++ [(name, id)] })

-- `slot` is `t_thread_slot` of the thread, before and afterwards.
def getSlotId (p : CounterProvider) (tid slot : Int) : Int × Int × CounterProvider :=
  if slot ≠ 0 then
    (slot, slot, p)
  else if p.slots.length ≥ sizeT p.maxThreads then
    (0, slot, p)
  else
    match p.slots.lookup tid with
    | some _ => (0, slot, p)
    | none =>
      let p := { p with slots := p.slots ++ [(tid, int32 (p.slots.length + 1))] }
      let slot := int32 p.slots.length
      (slot, slot, p)

def getLocation (p : CounterProvider) (counterId slotId : Int) : Int :=
  int32 ((counterId - 1) * p.maxThreads) + slotId - 1

def getCounterValue (p : CounterProvider) (counterId : Int) : Int :=
  let row := int32 ((counterId - 1) * p.maxThreads)
  (List.range p.maxThreads.toNat).foldl (fun value (i : Nat) =>
    int32 (value + p.data (int32 (row + i)))) 0

end CounterProvider

structure Counter where
  name : String
  counterId : Int
  deriving DecidableEq, Repr

structure Process where
  provider : CounterProvider
  threads : Int → Option Int
  counters : List Counter

namespace Process

def create (maxThreads maxCounters : Int) (data : Int → Int) : Option Process :=
  match CounterProvider.create maxThreads maxCounters data with
  | some provider => some { provider := provider, threads := fun _ => none, counters := [] }
  | none => none

-- `CounterProvider::GetLocation` in the thread `tid`, whose `t_thread_slot` is `slot`
def getLocation (s : Process) (tid slot counterId : Int) : Int × Process :=
  let (slotId, slot, provider) := s.provider.getSlotId tid slot
  (provider.getLocation counterId slotId,
    { s with provider := provider, threads := Function.update s.threads tid (some slot) })

def lookupCounterId (s : Process) (k : Nat) (c : Counter) : Int × Process :=
  if c.counterId = -1 then
    let (counterId, provider) := s.provider.getCounterId c.name
    (counterId, { s with
      provider := provider
      counters := s.counters.set k { c with counterId := counterId } })
  else
    (c.counterId, s)

def getPtr (s : Process) (tid slot : Int) (k : Nat) (c : Counter) : Option Int × Process :=
  let (counterId, s) := s.lookupCounterId k c
  if counterId > 0 then
    let (loc, s) := s.getLocation tid slot counterId
    (some loc, s)
  else
    (none, s)

inductive Update where
  | get
  | set (value : Int)
  | add (value : Int)
  deriving DecidableEq, Repr

def Update.apply : Update → Int → Int
  | get, old => old
  | set value, _ => value
  | add value, old => int32 (old + value)

def write (s : Process) (loc : Int) (update : Update) : Process :=
  let data := Function.update s.provider.data loc (update.apply (s.provider.data loc))
  { s with provider := { s.provider with data := data } }

inductive Label where
  | createThread (tid : Int)
  | exitThread (tid : Int)
  | createCounter (name : String)
  | getCounterId (name : String)
  -- `ptr` is what `GetPtr` of the `k`th counter returns to the thread.
  | update (tid : Int) (k : Nat) (name : String) (ptr : Option Int) (update : Update)
  deriving DecidableEq

def step (s : Process) : Label → Option Process
  | .createThread tid =>
    match s.threads tid with
    | some _ => none
    | none => some { s with threads := Function.update s.threads tid (some 0) }
  | .exitThread tid =>
    match s.threads tid with
    | some _ => some { s with threads := Function.update s.threads tid none }
    | none => none
  | .createCounter name => some { s with counters := s.counters ++ [⟨name, -1⟩] }
  | .getCounterId name => some { s with provider := (s.provider.getCounterId name).2 }
  | .update tid k name ptr update =>
    match s.threads tid, s.counters[k]? with
    | some slot, some c =>
      let res := s.getPtr tid slot k c
      if c.name = name ∧ res.1 = ptr then
        match ptr with
        | some loc => some (res.2.write loc update)
        | none => some res.2
      else
        none
    | _, _ => none

abbrev run (s : Process) (labels : List Label) : Option Process :=
  Machine.run step s labels

end Process
end Claire
