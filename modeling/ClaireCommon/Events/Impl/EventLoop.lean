import Mathlib.Algebra.Group.Nat.Defs
import Mathlib.Logic.Function.Basic
import ClaireCommon.Lib.Machine

/-!
This module contains the event loop together with the threads that call it.

`τ` is the type of the tasks and `ι` the type of the threads, the loop belongs to the thread `tid`.
`step` has a label for each point at which the threads of the program can interleave:
- `setTraceContext`, `post` and `quit` are calls of user code, which in the loop thread runs inside of
  a channel's `OnEvent`, inside of a task or outside of `loop`,
- `push` is the critical section of the `Post` that a thread has called and `wakeup` what the call
  does behind it,
- the remaining labels are the way of the loop thread through `loop`.

The list of `poll` is `active_channels_` after it has been sorted, its order is left open.
-/

namespace Claire

universe u v

abbrev TraceContext := Int × Int

inductive Channel where
  | wakeup
  | timer
  | user (fd : Int)
  deriving DecidableEq, Repr

namespace EventLoop

abbrev Entry (τ : Type u) := TraceContext × τ

inductive Call (τ : Type u) where
  | idle
  | posting (context : TraceContext) (task : τ)
  | pushed
  | quitting
  deriving DecidableEq

inductive Pc (τ : Type u) where
  | stopped
  | polling
  | dispatching (active : List Channel)
  | onEvent (active : List Channel)
  | swapping
  | runningTasks (rest : List (Entry τ))
  | inTask (rest : List (Entry τ))

end EventLoop

structure EventLoop (τ : Type u) (ι : Type v) where
  tid : ι
  quitting : Bool
  wakeupFd : Nat
  currentActiveChannel : Option Channel
  pendingTasks : List (EventLoop.Entry τ)
  contexts : ι → TraceContext
  calls : ι → EventLoop.Call τ
  pc : EventLoop.Pc τ

namespace EventLoop

variable {τ : Type u} {ι : Type v} [DecidableEq ι]

def init (tid : ι) : EventLoop τ ι where
  tid := tid
  quitting := false
  wakeupFd := 0
  currentActiveChannel := none
  pendingTasks := []
  contexts := fun _ => (0, 0)
  calls := fun _ => .idle
  pc := .stopped

def isInLoopThread (l : EventLoop τ ι) (t : ι) : Bool := l.tid = t

def getTraceContext (l : EventLoop τ ι) (t : ι) : TraceContext := l.contexts t

def setTraceContext (l : EventLoop τ ι) (t : ι) (context : TraceContext) : EventLoop τ ι :=
  { l with contexts := Function.update l.contexts t context }

def resetTraceContext (l : EventLoop τ ι) (t : ι) : EventLoop τ ι :=
  l.setTraceContext t (0, 0)

def setCall (l : EventLoop τ ι) (t : ι) (call : Call τ) : EventLoop τ ι :=
  { l with calls := Function.update l.calls t call }

-- The write fails, and is only logged, if the counter would exceed its maximum.
def wakeup (l : EventLoop τ ι) : EventLoop τ ι :=
  if l.wakeupFd + 1 ≤ 2 ^ 64 - 2 then
    { l with wakeupFd := l.wakeupFd + 1 }
  else
    l

def onWakeup (l : EventLoop τ ι) : EventLoop τ ι := { l with wakeupFd := 0 }

def post (l : EventLoop τ ι) (t : ι) (context : TraceContext) (task : τ) : EventLoop τ ι :=
  l.setCall t (.posting context task)

def push (l : EventLoop τ ι) (t : ι) (task : τ) : EventLoop τ ι :=
  { l with pendingTasks := l.pendingTasks ++ [(l.getTraceContext t, task)] }.setCall t .pushed

def wakeupAfterPush (l : EventLoop τ ι) (t : ι) : EventLoop τ ι :=
  let l := l.setCall t .idle
  if !l.isInLoopThread t || l.currentActiveChannel.isNone then
    l.wakeup
  else
    l

def quit (l : EventLoop τ ι) (t : ι) : EventLoop τ ι :=
  let l := { l with quitting := true }
  if !l.isInLoopThread t then
    l.setCall t .quitting
  else
    l

def nextIteration (l : EventLoop τ ι) : EventLoop τ ι :=
  if l.quitting then
    { l with pc := .stopped }
  else
    { l with pc := .polling }

def beginEvent (l : EventLoop τ ι) (channel : Channel) (rest : List Channel) : EventLoop τ ι :=
  { l with currentActiveChannel := some channel, pc := .onEvent rest }

def endDispatch (l : EventLoop τ ι) : EventLoop τ ι :=
  { l with currentActiveChannel := none, pc := .swapping }

def swap (l : EventLoop τ ι) : EventLoop τ ι :=
  { l with pendingTasks := [], pc := .runningTasks l.pendingTasks }

def beginTask (l : EventLoop τ ι) (entry : Entry τ) (rest : List (Entry τ)) : EventLoop τ ι :=
  { l.setTraceContext l.tid entry.1 with pc := .inTask rest }

def endTask (l : EventLoop τ ι) (rest : List (Entry τ)) : EventLoop τ ι :=
  { l.resetTraceContext l.tid with pc := .runningTasks rest }

def Pc.runsUserCode : Pc τ → Bool
  | .stopped | .onEvent _ | .inTask _ => true
  | _ => false

variable [DecidableEq τ]

def mayCall (l : EventLoop τ ι) (t : ι) : Bool :=
  l.calls t = .idle && (!l.isInLoopThread t || l.pc.runsUserCode)

inductive Label (τ : Type u) (ι : Type v) where
  | setTraceContext (t : ι) (context : TraceContext)
  | post (t : ι) (context : TraceContext) (task : τ)
  | push (t : ι) (context : TraceContext) (task : τ)
  | wakeup (t : ι)
  | quit (t : ι)
  | loop
  | poll (active : List Channel)
  | beginEvent
  | onWakeup
  | endEvent
  | endDispatch
  | swap
  | beginTask (context : TraceContext) (task : τ)
  | endTask
  | iterate

def step (l : EventLoop τ ι) : Label τ ι → Option (EventLoop τ ι)
  | .setTraceContext t context => if l.mayCall t then some (l.setTraceContext t context) else none
  | .post t context task =>
    if l.mayCall t ∧ l.getTraceContext t = context then some (l.post t context task) else none
  | .push t context task =>
    if l.calls t = .posting context task then some (l.push t task) else none
  | .wakeup t =>
    match l.calls t with
    | .pushed => some (l.wakeupAfterPush t)
    | .quitting => some (l.setCall t .idle).wakeup
    | _ => none
  | .quit t => if l.mayCall t then some (l.quit t) else none
  | .loop =>
    match l.pc with
    | .stopped => if l.calls l.tid = .idle then some l.nextIteration else none
    | _ => none
  | .poll active =>
    match l.pc with
    | .polling => some { l with pc := .dispatching active }
    | _ => none
  | .beginEvent =>
    match l.pc with
    | .dispatching (channel :: rest) => some (l.beginEvent channel rest)
    | _ => none
  | .onWakeup =>
    match l.pc with
    | .onEvent _ =>
      if l.calls l.tid = .idle ∧ l.currentActiveChannel = some .wakeup then
        some l.onWakeup
      else
        none
    | _ => none
  | .endEvent =>
    match l.pc with
    | .onEvent rest =>
      if l.calls l.tid = .idle then some { l with pc := .dispatching rest } else none
    | _ => none
  | .endDispatch =>
    match l.pc with
    | .dispatching [] => some l.endDispatch
    | _ => none
  | .swap =>
    match l.pc with
    | .swapping => some l.swap
    | _ => none
  | .beginTask context task =>
    match l.pc with
    | .runningTasks (entry :: rest) =>
      let l := l.beginTask entry rest
      if l.getTraceContext l.tid = context ∧ entry.2 = task then some l else none
    | _ => none
  | .endTask =>
    match l.pc with
    | .inTask rest => if l.calls l.tid = .idle then some (l.endTask rest) else none
    | _ => none
  | .iterate =>
    match l.pc with
    | .runningTasks [] => some l.nextIteration
    | _ => none

abbrev run (l : EventLoop τ ι) (labels : List (Label τ ι)) : Option (EventLoop τ ι) :=
  Machine.run step l labels

end EventLoop
end Claire
