import Mathlib.Logic.Function.Basic

/-!
This module contains the epoll poller and the operations of the channels that are registered with it.
`χ` are the channels, `fd c` is the file descriptor of `c`. The state holds what the poller, its
channels and the kernel know. `epoll` is the set of the kernel: a file descriptor that is in it has
its `epoll_event`.

All functions run in the loop thread. In a build with `ndebug` the DCHECKs are not looked at.
-/

namespace Claire
namespace EPollPoller

-- `events_`, `revents_` and `epoll_event::events`
abbrev EventMask := BitVec 32

namespace Channel

-- The values -1, 1 and 2 of `context_`
inductive Context where
  | kNew
  | kAdded
  | kDeleted
  deriving DecidableEq, Repr

def pollIn : EventMask := 0x001
def pollPri : EventMask := 0x002
def pollOut : EventMask := 0x004

def kNoneEvent : EventMask := 0
def kReadEvent : EventMask := pollIn ||| pollPri
def kWriteEvent : EventMask := pollOut

end Channel

structure Channel where
  events : EventMask
  revents : EventMask
  context : Channel.Context
  deriving DecidableEq, Repr

namespace Channel

def init : Channel := ⟨0, 0, .kNew⟩

def isNoneEvent (channel : Channel) : Bool := channel.events = kNoneEvent

end Channel

structure EPollEvent where
  events : EventMask
  data : Nat
  deriving DecidableEq, Repr

namespace Epoll

inductive Operation where
  | add
  | mod
  | del
  deriving DecidableEq, Repr

abbrev Interests := Nat → Option EPollEvent

-- `none` where `epoll_ctl` fails with `EEXIST` or `ENOENT`
def ctl (interests : Interests) (operation : Operation) (fd : Nat) (event : EPollEvent)
    : Option Interests :=
  match operation, interests fd with
  | .add, none => some (Function.update interests fd (some event))
  | .mod, some _ => some (Function.update interests fd (some event))
  | .del, some _ => some (Function.update interests fd none)
  | _, _ => none

inductive Errno where
  | eintr
  | other
  deriving DecidableEq, Repr

end Epoll

end EPollPoller

structure EPollPoller (χ : Type) where
  eventsSize : Nat
  channels : List (Option χ)
  channel : χ → EPollPoller.Channel
  epoll : EPollPoller.Epoll.Interests
  -- The calls of `epoll_ctl` that failed and were logged
  failed : List (EPollPoller.Epoll.Operation × Nat)

namespace EPollPoller

-- What ends the program: a failed `DCHECK`, an access past the end of `channels_`, a null pointer
-- and `LOG(FATAL)`
inductive Stop where
  | dcheck
  | outOfBounds
  | nullPointer
  | fatal
  deriving DecidableEq, Repr

variable {χ : Type} [DecidableEq χ] (ndebug : Bool) (fd : χ → Nat)

def init : EPollPoller χ where
  eventsSize := 64
  channels := List.replicate 64 none
  channel := fun _ => .init
  epoll := fun _ => none
  failed := []

def setChannel (p : EPollPoller χ) (c : χ) (channel : Channel) : EPollPoller χ :=
  { p with channel := Function.update p.channel c channel }

def setEvents (p : EPollPoller χ) (c : χ) (events : EventMask) : EPollPoller χ :=
  p.setChannel c { p.channel c with events := events }

def setRevents (p : EPollPoller χ) (c : χ) (revents : EventMask) : EPollPoller χ :=
  p.setChannel c { p.channel c with revents := revents }

def setContext (p : EPollPoller χ) (c : χ) (context : Channel.Context) : EPollPoller χ :=
  p.setChannel c { p.channel c with context := context }

def update (p : EPollPoller χ) (operation : Epoll.Operation) (c : χ) : EPollPoller χ :=
  let event := { events := (p.channel c).events, data := fd c }
  match Epoll.ctl p.epoll operation (fd c) event with
  | some epoll => { p with epoll := epoll }
  | none => { p with failed := p.failed ++ [(operation, fd c)] }

def load (p : EPollPoller χ) (i : Nat) : Except Stop (Option χ) :=
  match p.channels[i]? with
  | some stored => .ok stored
  | none => .error .outOfBounds

def store (p : EPollPoller χ) (i : Nat) (value : Option χ) : Except Stop (EPollPoller χ) :=
  if i < p.channels.length then
    .ok { p with channels := p.channels.set i value }
  else
    .error .outOfBounds

def dcheck (condition : Bool) : Except Stop Unit :=
  if ndebug || condition then .ok () else .error .dcheck

def dcheckStored (p : EPollPoller χ) (c : χ) : Except Stop Unit :=
  if ndebug then
    .ok ()
  else do
    let stored ← p.load (fd c)
    dcheck ndebug (stored = some c)

-- `none` where `UpdateChannel` returns early
def reserve (p : EPollPoller χ) (c : χ) : Option (EPollPoller χ) :=
  if fd c ≥ p.channels.length then
    if (p.channel c).context = .kNew then
      some { p with channels := p.channels ++ List.replicate p.channels.length none }
    else
      none
  else
    some p

def updateReserved (p : EPollPoller χ) (c : χ) : Except Stop (EPollPoller χ) :=
  match (p.channel c).context with
  | .kNew => do
    let p ← p.store (fd c) (some c)
    return (p.setContext c .kAdded).update fd .add c
  | .kDeleted => do
    p.dcheckStored ndebug fd c
    return (p.setContext c .kAdded).update fd .add c
  | .kAdded => do
    p.dcheckStored ndebug fd c
    if (p.channel c).isNoneEvent then
      return (p.update fd .del c).setContext c .kDeleted
    else
      return p.update fd .mod c

def updateChannel (p : EPollPoller χ) (c : χ) : Except Stop (EPollPoller χ) :=
  match p.reserve fd c with
  | some p => p.updateReserved ndebug fd c
  | none => .ok p

def unregister (p : EPollPoller χ) (c : χ) : EPollPoller χ :=
  if (p.channel c).context = .kAdded then p.update fd .del c else p

def removeChannel (p : EPollPoller χ) (c : χ) : Except Stop (EPollPoller χ) := do
  dcheck ndebug (fd c < p.channels.length)
  p.dcheckStored ndebug fd c
  dcheck ndebug (p.channel c).isNoneEvent
  dcheck ndebug ((p.channel c).context = .kAdded ∨ (p.channel c).context = .kDeleted)
  ((p.unregister fd c).setContext c .kNew).store (fd c) none

def deliver (event : EPollEvent) (p : EPollPoller χ) (activeChannels : List χ)
    : Except Stop (EPollPoller χ × List χ) :=
  if event.data ≥ p.channels.length then
    .ok (p, activeChannels)
  else do
    match ← p.load event.data with
    | none => .error .nullPointer
    | some c =>
      dcheck ndebug (fd c = event.data)
      return (p.setRevents c event.events, activeChannels ++ [c])

def deliverAll (p : EPollPoller χ) (activeChannels : List χ)
    : List EPollEvent → Except Stop (EPollPoller χ × List χ)
  | [] => .ok (p, activeChannels)
  | event :: events => do
    let (p, activeChannels) ← p.deliver ndebug fd event activeChannels
    p.deliverAll activeChannels events

def resizeEvents (p : EPollPoller χ) (numEvents : Nat) : EPollPoller χ :=
  if p.eventsSize = numEvents then { p with eventsSize := numEvents * 2 } else p

def poll (p : EPollPoller χ) (result : Except Epoll.Errno (List EPollEvent))
    : Except Stop (EPollPoller χ × List χ) :=
  match result with
  | .error .eintr => .ok (p, [])
  | .error .other => .error .fatal
  | .ok events => do
    let (p, activeChannels) ← p.deliverAll ndebug fd [] events
    return (p.resizeEvents events.length, activeChannels)

inductive Label (χ : Type) where
  | enableReading (c : χ)
  | enableWriting (c : χ)
  | disableReading (c : χ)
  | disableWriting (c : χ)
  | disableAll (c : χ)
  | remove (c : χ)
  | poll (result : Except Epoll.Errno (List EPollEvent))

-- `Channel::Update` with the new `events_`
def updateEvents (p : EPollPoller χ) (c : χ) (events : EventMask)
    : Except Stop (EPollPoller χ) :=
  (p.setEvents c events).updateChannel ndebug fd c

def step (p : EPollPoller χ) : Label χ → Except Stop (EPollPoller χ)
  | .enableReading c => p.updateEvents ndebug fd c ((p.channel c).events ||| Channel.kReadEvent)
  | .enableWriting c => p.updateEvents ndebug fd c ((p.channel c).events ||| Channel.kWriteEvent)
  | .disableReading c => p.updateEvents ndebug fd c ((p.channel c).events &&& ~~~Channel.kReadEvent)
  | .disableWriting c => p.updateEvents ndebug fd c ((p.channel c).events &&& ~~~Channel.kWriteEvent)
  | .disableAll c => p.updateEvents ndebug fd c Channel.kNoneEvent
  | .remove c => p.removeChannel ndebug fd c
  | .poll result => do
    let (p, _) ← p.poll ndebug fd result
    return p

end EPollPoller
end Claire
