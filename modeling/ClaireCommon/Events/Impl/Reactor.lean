import ClaireCommon.Events.Impl.EventLoop
import ClaireCommon.Events.Impl.TimeoutQueue

/-!
This module contains the event loop together with its timer queue. The queue hands the insertion and
the removal of an event to `EventLoop::Run`, which executes them at once in the loop thread and
posts them in any other thread.

The labels `add`, `addRepeating` and `cancel` are the calls of these functions by user code, `task`
is the loop executing a task of the queue that was posted. Such a task runs no user code, so that it
is a single step. `loop` and `queue` are the steps in which the two parts move alone. A `clock` is
what `Timestamp::Now()` returns to a `ResetTimerfd` of the step.
-/

namespace Claire

universe u v w

-- What `Add` and `Cancel` bind: `AddInLoop` with the event of the id, `CancelInLoop`
inductive TimerTask where
  | addInLoop (id : Int)
  | cancelInLoop (id : Int)
  deriving DecidableEq, Repr

def TimerTask.effect {κ : Type u} (clock : Int) : TimerTask → TimeoutQueue.Label κ
  | addInLoop id => .addInLoop id clock
  | cancelInLoop id => .cancelInLoop id

inductive Task (υ : Type v) where
  | timer (task : TimerTask)
  | user (task : υ)
  deriving DecidableEq

structure Reactor (κ : Type u) (υ : Type v) (ι : Type w) where
  loop : EventLoop (Task υ) ι
  queue : TimeoutQueue κ

namespace Reactor

variable {κ : Type u} {υ : Type v} {ι : Type w} [DecidableEq υ] [DecidableEq ι]

def init (tid : ι) : Reactor κ υ ι where
  loop := .init tid
  queue := .init

inductive Label (κ : Type u) (υ : Type v) (ι : Type w) where
  | loop (label : EventLoop.Label (Task υ) ι)
  | queue (label : TimeoutQueue.Label κ)
  | add (t : ι) (id expiration : Int) (callback : κ) (clock : Int)
  | addRepeating (t : ι) (id now interval : Int) (callback : κ) (clock : Int)
  | cancel (t : ι) (id : Int) (clock : Int)
  | task (context : TraceContext) (task : TimerTask) (clock : Int)

def mayCall (r : Reactor κ υ ι) (t : ι) : Bool :=
  r.loop.mayCall t && (!r.loop.isInLoopThread t || r.queue.loopThreadMayCall)

def stepLoop (r : Reactor κ υ ι) (label : EventLoop.Label (Task υ) ι) : Option (Reactor κ υ ι) :=
  match r.loop.step label with
  | some loop => some { r with loop := loop }
  | none => none

def stepQueue (r : Reactor κ υ ι) (label : TimeoutQueue.Label κ) : Option (Reactor κ υ ι) :=
  match r.queue.step label with
  | some queue => some { r with queue := queue }
  | none => none

-- `EventLoop::Run`
def runTask (r : Reactor κ υ ι) (t : ι) (task : TimerTask) (clock : Int)
    : Option (Reactor κ υ ι) :=
  if r.loop.isInLoopThread t then
    r.stepQueue (task.effect clock)
  else
    r.stepLoop (.post t (r.loop.getTraceContext t) (.timer task))

def addEvent (r : Reactor κ υ ι) (t : ι) (id : Int) (label : TimeoutQueue.Label κ) (clock : Int)
    : Option (Reactor κ υ ι) :=
  match r.stepQueue label with
  | some r => r.runTask t (.addInLoop id) clock
  | none => none

-- The loop thread executes `TimeoutQueue::OnTimer` as the read callback of the timer channel.
def inOnTimer (r : Reactor κ υ ι) : Bool :=
  match r.loop.pc with
  | .onEvent _ => r.loop.calls r.loop.tid = .idle && r.loop.currentActiveChannel = some .timer
  | _ => false

def step (r : Reactor κ υ ι) : Label κ υ ι → Option (Reactor κ υ ι)
  | .loop label =>
    match label with
    | .setTraceContext t _ | .post t _ (.user _) | .quit t =>
      if r.mayCall t then r.stepLoop label else none
    | .post _ _ (.timer _) | .beginTask _ (.timer _) => none
    | .endEvent =>
      match r.queue.phase with
      | .idle => r.stepLoop label
      | .running .. => none
    | _ => r.stepLoop label
  | .queue label =>
    match label with
    | .expire => r.stepQueue label
    | .runStart _ | .execute _ | .runEnd _ => if r.inOnTimer then r.stepQueue label else none
    | _ => none
  | .add t id expiration callback clock =>
    if r.mayCall t then r.addEvent t id (.add id expiration callback) clock else none
  | .addRepeating t id now interval callback clock =>
    if r.mayCall t then r.addEvent t id (.addRepeating id now interval callback) clock else none
  | .cancel t id clock => if r.mayCall t then r.runTask t (.cancelInLoop id) clock else none
  | .task context task clock =>
    match r.stepLoop (.beginTask context (.timer task)) with
    | some r =>
      match r.stepQueue (task.effect clock) with
      | some r => r.stepLoop .endTask
      | none => none
    | none => none

abbrev run (r : Reactor κ υ ι) (labels : List (Label κ υ ι)) : Option (Reactor κ υ ι) :=
  Machine.run step r labels

end Reactor
end Claire
