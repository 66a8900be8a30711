import ClaireCommon.Base.Types
import ClaireCommon.Lib.UnorderedMap

/-!
This module contains the sampler of the counters: what it records of the snapshots that successive
calls of `DoSample` get from the `CounterProvider`.

An intermediate result that is no `int` has no meaning in the source, the model stops there.
-/

namespace Claire

inductive IntOverflow where
  | subtraction
  deriving DecidableEq, Repr

-- `x - y` of two `int`s
def subtractInt (x y : Int) : Except IntOverflow Int :=
  if -2 ^ 31 ≤ x - y ∧ x - y < 2 ^ 31 then .ok (x - y) else .error .subtraction

namespace CounterSampler

abbrev Snapshot := UnorderedMap String Int

abbrev SampleEntry := UnorderedMap String Int

-- What an entry says of a counter whose value was `last` before
def delta (value last : Int) : Except IntOverflow Int :=
  if value < last then do
    subtractInt (← subtractInt intMax last) value
  else
    subtractInt value last

def insertDelta (rhs : Snapshot) (entry : SampleEntry) (counter : String × Int)
    : Except IntOverflow SampleEntry :=
  match rhs.find counter.1 with
  | none => .ok entry
  | some last => do
    let delta ← delta counter.2 last
    return entry.insert counter.1 delta

def doSnapshotDiff (lhs rhs : Snapshot) : Except IntOverflow SampleEntry :=
  lhs.entries.foldlM (insertDelta rhs) .empty

def pushBack {α : Type} (capacity : Nat) (buffer : List α) (a : α) : List α :=
  (buffer ++ [a]).drop (buffer.length + 1 - capacity)

end CounterSampler

structure CounterSampler where
  capacity : Nat
  -- The seconds since the epoch with what was recorded
  samples : List (Int × CounterSampler.SampleEntry)
  lastSnapshot : CounterSampler.Snapshot

namespace CounterSampler

def create (capacity : Nat) : CounterSampler where
  capacity := capacity
  samples := []
  lastSnapshot := .empty

def sampleEntry (s : CounterSampler) (snapshot : Snapshot) : Except IntOverflow SampleEntry :=
  if s.lastSnapshot.isEmpty then .ok .empty else doSnapshotDiff snapshot s.lastSnapshot

-- The entry that the call makes with the sampler afterwards, `snapshot` and `now` are what it gets.
def doSample (s : CounterSampler) (snapshot : Snapshot) (now : Int)
    : Except IntOverflow (SampleEntry × CounterSampler) := do
  let entry ← sampleEntry s snapshot
  let s := { s with lastSnapshot := snapshot }
  if entry.isEmpty then
    return (entry, s)
  else
    return (entry, { s with samples := pushBack s.capacity s.samples (now, entry) })

def doSamples (s : CounterSampler)
    : List (Snapshot × Int) → Except IntOverflow (List SampleEntry × CounterSampler)
  | [] => .ok ([], s)
  | (snapshot, now) :: calls => do
    let (entry, s) ← doSample s snapshot now
    let (entries, s) ← doSamples s calls
    return (entry :: entries, s)

end CounterSampler
end Claire
