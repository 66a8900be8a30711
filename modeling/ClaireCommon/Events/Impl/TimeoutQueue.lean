import Mathlib.Data.Int.Order.Basic
import ClaireCommon.Base.Types
import ClaireCommon.Lib.Machine
import ClaireCommon.Lib.OrderedSet

/-!
This module contains the timer queue of the event loop together with the timerfd it arms.

`step` puts the operations of `TimeoutQueue.cc` together to a machine. Its labels are
- `add` and `addRepeating`, the part of `Add` and `AddRepeating` that any thread may execute at any
  time: handing out `id` and binding the event into a task for the loop,
- `addInLoop` and `cancelInLoop`, executed by the loop thread between two calls of `OnTimer` or by a
  callback that `Run` is executing,
- `runStart`, `execute` and `runEnd`, the steps of `OnTimer`: up to the first callback, one callback,
  and from the last callback on,
- `expire`, the kernel letting the armed timer expire.

A `clock` is what `Timestamp::Now()` returned to `ResetTimerfd`. Ids do not wrap around, what is said
about them is about the first `2 ^ 63 - 1` calls of `Add` and `AddRepeating`.
-/

namespace Claire

universe u

structure Timespec where
  sec : Int
  nsec : Int
  deriving DecidableEq, Repr

def Timespec.microSeconds (ts : Timespec) : Int := ts.sec * 1000000 + ts.nsec / 1000

def howMuchTimeFromNow (when now : Int) : Timespec :=
  let delta := int64 (when - now)
  let delta := if delta < 100 then 100 else delta
  { sec := delta.tdiv 1000000, nsec := (delta.tmod 1000000) * 1000 }

structure Arming where
  expiration : Int
  clock : Int
  value : Timespec
  deriving DecidableEq, Repr

-- A one-shot timerfd. It is readable exactly in the state `expired`.
inductive TimerFd where
  | disarmed
  | armed (arming : Arming)
  | expired (arming : Arming)
  deriving DecidableEq, Repr

namespace TimerFd

-- A zero timeout disarms the timer. Expirations that were not read are dropped.
def setTime (arming : Arming) : TimerFd :=
  if arming.value = ⟨0, 0⟩ then disarmed else armed arming

def read : TimerFd → TimerFd
  | expired _ => disarmed
  | fd => fd

def arming? : TimerFd → Option Arming
  | disarmed => none
  | armed a => some a
  | expired a => some a

end TimerFd

def resetTimerfd (expiration clock : Int) : TimerFd :=
  .setTime ⟨expiration, clock, howMuchTimeFromNow expiration clock⟩

structure Event (κ : Type u) where
  id : Int
  expiration : Int
  repeatInterval : Int
  callback : κ
  deriving Repr

def Event.reschedule {κ : Type u} (now : Int) (event : Event κ) : Event κ :=
  if event.repeatInterval ≥ 0 then
    { event with expiration := int64 (now + event.repeatInterval) }
  else
    event

abbrev TimeoutSet (κ : Type u) := OrderedSet (@Event.id κ) (@Event.expiration κ)

inductive TimeoutQueue.Phase (κ : Type u) where
  | idle
  -- `current` is the event whose callback is executing, `rest` is the part of `expired` behind it
  | running (now : Int) (current : Option (Event κ)) (rest : List (Event κ))

structure TimeoutQueue (κ : Type u) where
  timeouts : TimeoutSet κ
  next : Int
  timerFd : TimerFd
  bound : List (Event κ)
  phase : TimeoutQueue.Phase κ

namespace TimeoutQueue

variable {κ : Type u}

def init : TimeoutQueue κ where
  timeouts := OrderedSet.empty
  next := 1
  timerFd := .disarmed
  bound := []
  phase := .idle

def nextExpiration (q : TimeoutQueue κ) : Int :=
  match q.timeouts.first? with
  | none => int64Max
  | some event => event.expiration

def add (q : TimeoutQueue κ) (expiration : Int) (callback : κ) : Int × TimeoutQueue κ :=
  let event := ⟨q.next, expiration, -1, callback⟩
  (q.next, { q with next := q.next + 1, bound := q.bound ++ [event] })

def addRepeating (q : TimeoutQueue κ) (now interval : Int) (callback : κ) : Int × TimeoutQueue κ :=
  let event := ⟨q.next, int64 (now + interval), interval, callback⟩
  (q.next, { q with next := q.next + 1, bound := q.bound ++ [event] })

def addInLoop (q : TimeoutQueue κ) (event : Event κ) (clock : Int) : TimeoutQueue κ :=
  let reset := event.expiration < q.nextExpiration
  let q := { q with timeouts := (q.timeouts.insert event).1 }
  if reset then
    { q with timerFd := resetTimerfd q.nextExpiration clock }
  else
    q

def cancelInLoop (q : TimeoutQueue κ) (id : Int) : TimeoutQueue κ :=
  { q with timeouts := q.timeouts.erase id }

def reinsert (now : Int) (timeouts : TimeoutSet κ) (event : Event κ) : TimeoutSet κ :=
  if event.repeatInterval ≥ 0 then
    (timeouts.insert (event.reschedule now)).1
  else
    timeouts

def runStart (q : TimeoutQueue κ) (now : Int) : TimeoutQueue κ :=
  let expired := q.timeouts.upTo now
  { q with
    timerFd := q.timerFd.read
    timeouts := expired.foldl (reinsert now) (q.timeouts.eraseUpTo now)
    phase := .running now none (expired.map (Event.reschedule now)) }

def runEnd (q : TimeoutQueue κ) (clock : Int) : TimeoutQueue κ :=
  { q with
    timerFd := resetTimerfd q.nextExpiration clock
    phase := .idle }

def loopThreadMayCall (q : TimeoutQueue κ) : Bool :=
  match q.phase with
  | .idle => true
  | .running _ current _ => current.isSome

inductive Label (κ : Type u) where
  | add (id expiration : Int) (callback : κ)
  | addRepeating (id now interval : Int) (callback : κ)
  | addInLoop (id clock : Int)
  | cancelInLoop (id : Int)
  | expire
  | runStart (now : Int)
  | execute (id : Int)
  | runEnd (clock : Int)

def step (q : TimeoutQueue κ) : Label κ → Option (TimeoutQueue κ)
  | .add id expiration callback =>
    let res := q.add expiration callback
    if res.1 = id then some res.2 else none
  | .addRepeating id now interval callback =>
    let res := q.addRepeating now interval callback
    if res.1 = id then some res.2 else none
  | .addInLoop id clock =>
    match q.bound.find? (·.id = id) with
    | some event =>
      if q.loopThreadMayCall then
        let q := { q with bound := q.bound.filter (·.id ≠ id) }
        some (q.addInLoop event clock)
      else
        none
    | none => none
  | .cancelInLoop id => if q.loopThreadMayCall then some (q.cancelInLoop id) else none
  | .expire =>
    match q.timerFd with
    | .armed arming => some { q with timerFd := .expired arming }
    | _ => none
  | .runStart now =>
    match q.phase with
    | .idle => some (q.runStart now)
    | .running .. => none
  | .execute id =>
    match q.phase with
    | .running now _ (event :: rest) =>
      if event.id = id then some { q with phase := .running now (some event) rest } else none
    | _ => none
  | .runEnd clock =>
    match q.phase with
    | .running _ _ [] => some (q.runEnd clock)
    | _ => none

abbrev run (q : TimeoutQueue κ) (labels : List (Label κ)) : Option (TimeoutQueue κ) :=
  Machine.run step q labels

end TimeoutQueue
end Claire
