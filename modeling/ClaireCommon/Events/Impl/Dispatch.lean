import Mathlib.Data.List.Pairwise
import Mathlib.Data.List.Perm.Basic
import ClaireCommon.Events.Impl.EPollPoller

/-!
This module contains how `EventLoop::loop` hands the events of the poller to the callbacks of the
channels, in a build with DCHECKs.

User code runs in the callbacks of the channels and in the tasks behind them. It calls the channels with
`op`, `remove`, `setPriority`, `setCallback` and `tie`, and `destroy` is the destructor of a channel. What
else it does is left out.
-/

namespace Claire
namespace EventLoop

open EPollPoller (EventMask Stop)

namespace Dispatch

inductive Priority where
  | kLow
  | kNormal
  | kHigh
  deriving DecidableEq, Repr

def Priority.toInt : Priority → Int
  | kLow => 0
  | kNormal => 1
  | kHigh => 2

inductive Callback where
  | close
  | error
  | read
  | write
  deriving DecidableEq, Repr

def pollErr : EventMask := 0x008
def pollHup : EventMask := 0x010
def pollNval : EventMask := 0x020
def pollRdhup : EventMask := 0x2000

def has (revents mask : EventMask) : Bool := revents &&& mask ≠ 0

def Callback.applies (revents : EventMask) : Callback → Bool
  | close => has revents pollHup && !has revents EPollPoller.Channel.pollIn
  | error => has revents (pollErr ||| pollNval)
  | read => has revents (EPollPoller.Channel.pollIn ||| EPollPoller.Channel.pollPri ||| pollRdhup)
  | write => has revents EPollPoller.Channel.pollOut

-- In the order in which `OnEventWithGuard` looks at them
def callbacks : List Callback := [.close, .error, .read, .write]

-- How far the loop thread is: outside of the dispatch, between two channels, in `OnEventWithGuard` with
-- the callbacks it has not looked at, and in a callback
inductive Phase where
  | outside
  | next
  | onEvent (left : List Callback)
  | inCallback (left : List Callback)
  deriving DecidableEq, Repr

end Dispatch

structure Dispatch (χ : Type) where
  poller : EPollPoller χ
  activeChannels : List χ
  rest : List χ
  currentActiveChannel : Option χ
  phase : Dispatch.Phase
  priority : χ → Dispatch.Priority
  callback : χ → Dispatch.Callback → Bool
  tied : χ → Bool
  eventHandling : χ → Bool

namespace Dispatch

variable {χ : Type} [DecidableEq χ] (fd : χ → Nat)

def init : Dispatch χ where
  poller := .init
  activeChannels := []
  rest := []
  currentActiveChannel := none
  phase := .outside
  priority := fun _ => .kNormal
  callback := fun _ _ => false
  tied := fun _ => false
  eventHandling := fun _ => false

-- `sorted` is what the unstable `sort` makes of the active channels.
inductive Label (χ : Type) where
  | poll (result : Except EPollPoller.Epoll.Errno (List EPollPoller.EPollEvent)) (sorted : List χ)
  -- `guard` is whether `tie_.lock()` finds the owner.
  | visit (c : χ) (guard : Bool)
  | begin_ (c : χ) (callback : Callback)
  | skip
  | end_
  | leave
  | done
  | op (label : EPollPoller.Label χ)
  | remove (c : χ)
  | setPriority (c : χ) (priority : Priority)
  -- `isSet` is whether the new callback can be called.
  | setCallback (c : χ) (callback : Callback) (isSet : Bool)
  | tie (c : χ)
  | destroy (c : χ)

def mayCall (d : Dispatch χ) : Bool :=
  match d.phase with
  | .outside | .inCallback _ => true
  | .next | .onEvent _ => false

-- `disabled` is for a label that is not the next step of the loop.
inductive Outcome (χ : Type) where
  | next (d : Dispatch χ)
  | stop (reason : Stop)
  | disabled

def Outcome.ofPoller (d : Dispatch χ) : Except Stop (EPollPoller χ) → Outcome χ
  | .ok poller => .next { d with poller := poller }
  | .error reason => .stop reason

def IsSorted (d : Dispatch χ) (sorted : List χ) : Prop :=
  sorted.Pairwise fun c c' => (d.priority c').toInt ≤ (d.priority c).toInt

instance (d : Dispatch χ) (sorted : List χ) : Decidable (d.IsSorted sorted) :=
  inferInstanceAs (Decidable (sorted.Pairwise fun c c' => (d.priority c').toInt ≤ (d.priority c).toInt))

def poll (d : Dispatch χ) (result : Except EPollPoller.Epoll.Errno (List EPollPoller.EPollEvent))
    (sorted : List χ) : Outcome χ :=
  match d.poller.poll false fd result with
  | .error reason => .stop reason
  | .ok (poller, activeChannels) =>
    if sorted.Perm activeChannels ∧ d.IsSorted sorted then
      .next { d with poller := poller, activeChannels := sorted, rest := sorted, phase := .next }
    else
      .disabled

def visit (d : Dispatch χ) (c : χ) (guard : Bool) (rest : List χ) : Dispatch χ :=
  let d := { d with rest := rest, currentActiveChannel := some c }
  if d.tied c && !guard then
    d
  else
    { d with phase := .onEvent callbacks, eventHandling := Function.update d.eventHandling c true }

def takes (d : Dispatch χ) (c : χ) (callback : Callback) : Bool :=
  callback.applies (d.poller.channel c).revents && d.callback c callback

def removeChannel (d : Dispatch χ) (c : χ) : Outcome χ :=
  if d.currentActiveChannel = none ∨ d.currentActiveChannel = some c ∨ c ∉ d.activeChannels then
    .ofPoller d (d.poller.removeChannel false fd c)
  else
    .stop .dcheck

def stepLoop (d : Dispatch χ) (label : Label χ) : Outcome χ :=
  match d.phase, label with
  | .outside, .poll result sorted => d.poll fd result sorted
  | .next, .visit c guard =>
    match d.rest with
    | [] => .disabled
    | c' :: rest => if c = c' then .next (d.visit c guard rest) else .disabled
  | .next, .done =>
    if d.rest = [] then .next { d with currentActiveChannel := none, phase := .outside } else .disabled
  | .onEvent (callback :: left), .begin_ c callback' =>
    if d.currentActiveChannel = some c ∧ callback = callback' ∧ d.takes c callback then
      .next { d with phase := .inCallback left }
    else
      .disabled
  | .onEvent (callback :: left), .skip =>
    if d.currentActiveChannel.all fun c => !d.takes c callback then
      .next { d with phase := .onEvent left }
    else
      .disabled
  | .onEvent [], .leave =>
    match d.currentActiveChannel with
    | some c =>
      .next { d with phase := .next, eventHandling := Function.update d.eventHandling c false }
    | none => .disabled
  | .inCallback left, .end_ => .next { d with phase := .onEvent left }
  | _, _ => .disabled

def stepCall (d : Dispatch χ) : Label χ → Outcome χ
  | .op label =>
    match label with
    | .enableReading _ | .enableWriting _ | .disableReading _ | .disableWriting _ | .disableAll _ =>
      .ofPoller d (d.poller.step false fd label)
    | .remove _ | .poll _ => .disabled
  | .remove c => d.removeChannel fd c
  | .setPriority c priority => .next { d with priority := Function.update d.priority c priority }
  | .setCallback c callback isSet =>
    let callbacks := Function.update (d.callback c) callback isSet
    .next { d with callback := Function.update d.callback c callbacks }
  | .tie c => .next { d with tied := Function.update d.tied c true }
  | .destroy c => if d.eventHandling c then .stop .fatal else .next d
  | _ => .disabled

def step (d : Dispatch χ) (label : Label χ) : Outcome χ :=
  match label with
  | .op _ | .remove _ | .setPriority .. | .setCallback .. | .tie _ | .destroy _ =>
    if d.mayCall then d.stepCall fd label else .disabled
  | _ => d.stepLoop fd label

end Dispatch
end EventLoop
end Claire
