import ClaireCommon.Events.Impl.EventLoop

/-!
This module contains the thread that runs an event loop of its own, with the owner that starts and
destroys it. The loop lives on the stack of `ThreadMain`, `loop_` is the only way to it for the owner.

`.quit` and `.wakeup` are the two accesses of the destructor to what `loop_` points to: `quit_ = true`
with the test of the thread, and the `Wakeup` behind it. Such a step has no meaning if there is no loop,
the model stops there.
-/

namespace Claire

universe u

namespace EventLoopThread

inductive Party where
  | owner
  | loopThread
  | other (i : Nat)
  deriving DecidableEq, Repr

-- What the owner does, and whether the init callback and what the loop runs call `loop->quit()`
structure Program where
  starts : Bool
  destroys : Bool
  callbackQuits : Bool
  loopQuits : Bool
  deriving DecidableEq, Repr

inductive Owner where
  | idle
  | inStartLoop
  | waiting
  | started
  | inDestructor
  | inQuit
  | joining
  | destroyed
  deriving DecidableEq, Repr

inductive ThreadMain where
  | notStarted
  | entered
  | callback
  | published
  | looping
  | returned
  | finished
  deriving DecidableEq, Repr

end EventLoopThread

structure EventLoopThread (τ : Type u) where
  loop : Bool
  -- The loop of `ThreadMain` while it lives
  object : Option (EventLoop τ EventLoopThread.Party)
  owner : EventLoopThread.Owner
  thread : EventLoopThread.ThreadMain

namespace EventLoopThread

variable {τ : Type u}

def create : EventLoopThread τ where
  loop := false
  object := none
  owner := .idle
  thread := .notStarted

inductive Label (τ : Type u) where
  | start
  -- The test of `loop_` in `StartLoop`, also behind each `Wait`
  | testLoop
  | destroy
  | quit
  | wakeup
  | join
  | construct
  | publish
  | callLoop
  | loop (label : EventLoop.Label τ Party)
  | destroyLoop

def party : EventLoop.Label τ Party → Party
  | .setTraceContext t _ | .post t _ _ | .push t _ _ | .wakeup t | .quit t => t
  | _ => .loopThread

def mayQuit (program : Program) : ThreadMain → Bool
  | .callback => program.callbackQuits
  | .looping => program.loopQuits
  | _ => false

-- Other threads than the two have the loop from the init callback or from the owner.
def mayStep (program : Program) (s : EventLoopThread τ) (label : EventLoop.Label τ Party) : Bool :=
  match label, party label with
  | .quit _, .loopThread => mayQuit program s.thread
  | .quit _, _ | .loop, _ => false
  | _, .owner => s.owner = .started
  | _, .loopThread => s.thread = .callback || s.thread = .looping
  | _, .other _ => true

def isIdle (s : EventLoopThread τ) (party : Party) : Bool :=
  match s.object with
  | some l =>
    match l.calls party with
    | .idle => true
    | _ => false
  | none => true

-- Where `ThreadMain` is when `loop` has got this far
def inLoop (l : EventLoop τ Party) : ThreadMain :=
  match l.pc with
  | .stopped => .returned
  | _ => .looping

def goOn (s : EventLoopThread τ) (l : EventLoop τ Party) : EventLoopThread τ :=
  { s with object := some l, thread := if s.thread = .looping then inLoop l else s.thread }

variable [DecidableEq τ]

def step (program : Program) (s : EventLoopThread τ) : Label τ → Option (EventLoopThread τ)
  | .start =>
    if program.starts ∧ s.owner = .idle then
      some { s with owner := .inStartLoop, thread := .entered }
    else
      none
  | .testLoop =>
    match s.owner with
    | .inStartLoop | .waiting => some { s with owner := if s.loop then .started else .waiting }
    | _ => none
  | .destroy =>
    if program.destroys ∧ s.owner = (if program.starts then .started else .idle) ∧ s.isIdle .owner then
      some { s with owner := .inDestructor }
    else
      none
  | .quit =>
    match s.owner, s.loop, s.object with
    | .inDestructor, true, some l => some { s with owner := .inQuit, object := some (l.quit .owner) }
    | _, _, _ => none
  | .wakeup =>
    match s.owner, s.object with
    | .inQuit, some l =>
      match l.step (.wakeup .owner) with
      | some l' => some { s with owner := .joining, object := some l' }
      | none => none
    | _, _ => none
  | .join =>
    if s.owner = .joining ∧ s.thread = .finished then some { s with owner := .destroyed } else none
  | .construct =>
    if s.thread = .entered then
      some { s with thread := .callback, object := some (.init .loopThread) }
    else
      none
  | .publish =>
    if s.thread = .callback ∧ s.isIdle .loopThread then
      some { s with thread := .published, loop := true }
    else
      none
  | .callLoop =>
    match s.thread, s.object with
    | .published, some l =>
      match l.step .loop with
      | some l' => some { s with thread := inLoop l', object := some l' }
      | none => none
    | _, _ => none
  | .loop label =>
    match s.object with
    | some l =>
      if mayStep program s label then (l.step label).map s.goOn else none
    | none => none
  | .destroyLoop =>
    if s.thread = .returned then some { s with thread := .finished, object := none } else none

abbrev run (program : Program) (labels : List (Label τ)) : Option (EventLoopThread τ) :=
  Machine.run (step program) create labels

end EventLoopThread
end Claire
