import ClaireCommon.Events.Impl.EventLoop

/-!
This module contains the thread pool together with the threads that call it.

`τ` is the type of the tasks and `ι` the type of the threads that are not workers of the pool. The
worker `i` is the thread `threads_[i]`, it can call the pool itself while it executes a task. `step` has
a label for each point at which the threads of the program can interleave:
- `setTraceContext` and `run` are calls of user code, `push` and `waitNotFull` are the two ways through
  the critical section of `Run`,
- `take`, `takeNothing` and `waitNotEmpty` are the three ways through the critical section of `Take`,
- the remaining labels with a worker are its way through `RunInThread`,
- `start` and `stop` are calls of these functions, `control` is a step of such a call.

A condition wait can end at any time, with `wakeNotFull` or `wakeNotEmpty`, so that `Notify` has no
effect of its own. A task that throws ends the program and with it the run.
-/

namespace Claire

universe u v

namespace ThreadPool

-- An empty `Task` is `none`.
abbrev Entry (τ : Type u) := TraceContext × Option τ

inductive Thread (ι : Type v) where
  | worker (i : Nat)
  | other (t : ι)
  deriving DecidableEq

-- How far a thread is with a call of `Run`, `context` is its context when it calls
inductive Call (τ : Type u) where
  | idle
  | locking (context : TraceContext) (task : Option τ)
  | waitingNotFull (context : TraceContext) (task : Option τ)
  deriving DecidableEq

inductive Worker (τ : Type u) where
  | created
  | looping
  | taking
  | waitingNotEmpty
  | taken (entry : Entry τ)
  | executing
  | finished
  deriving DecidableEq

inductive Control where
  | starting (numThreads : Nat)
  | spawning (i numThreads : Nat)
  | stopping
  | notifying
  | joining
  deriving DecidableEq

end ThreadPool

structure ThreadPool (τ : Type u) (ι : Type v) where
  maxQueueSize : Nat
  running : Bool
  threads : List (ThreadPool.Worker τ)
  queue : List (ThreadPool.Entry τ)
  contexts : ThreadPool.Thread ι → TraceContext
  calls : ThreadPool.Thread ι → ThreadPool.Call τ
  controls : List ThreadPool.Control

namespace ThreadPool

variable {τ : Type u} {ι : Type v}

def init (maxQueueSize : Nat) : ThreadPool τ ι where
  maxQueueSize := maxQueueSize
  running := false
  threads := []
  queue := []
  contexts := fun _ => (0, 0)
  calls := fun _ => .idle
  controls := []

def getTraceContext (p : ThreadPool τ ι) (t : Thread ι) : TraceContext := p.contexts t

def isFull (p : ThreadPool τ ι) : Bool := p.maxQueueSize > 0 && p.queue.length ≥ p.maxQueueSize

def setWorker (p : ThreadPool τ ι) (i : Nat) (worker : Worker τ) : ThreadPool τ ι :=
  { p with threads := p.threads.set i worker }

def startThread (threads : List (Worker τ)) (i : Nat) : List (Worker τ) :=
  match threads[i]? with
  | some .created => threads.set i .looping
  | _ => threads

def setControl (p : ThreadPool τ ι) (k : Nat) (control : Control) : ThreadPool τ ι :=
  { p with controls := p.controls.set k control }

def returnControl (p : ThreadPool τ ι) (k : Nat) : ThreadPool τ ι :=
  { p with controls := p.controls.eraseIdx k }

def spawn (p : ThreadPool τ ι) (i : Nat) : ThreadPool τ ι :=
  { p with threads := startThread (p.threads ++ [.created]) i }

def stepControl (p : ThreadPool τ ι) (k : Nat) : Control → Option (ThreadPool τ ι)
  | .starting numThreads => some ({ p with running := true }.setControl k (.spawning 0 numThreads))
  | .spawning i numThreads =>
    if i < numThreads then
      some ((p.spawn i).setControl k (.spawning (i + 1) numThreads))
    else
      some (p.returnControl k)
  | .stopping => some ({ p with running := false }.setControl k .notifying)
  | .notifying => some (p.setControl k .joining)
  | .joining => if p.threads.all (· matches .finished) then some (p.returnControl k) else none

variable [DecidableEq ι]

def setTraceContext (p : ThreadPool τ ι) (t : Thread ι) (context : TraceContext) : ThreadPool τ ι :=
  { p with contexts := Function.update p.contexts t context }

def resetTraceContext (p : ThreadPool τ ι) (t : Thread ι) : ThreadPool τ ι :=
  p.setTraceContext t (0, 0)

def setCall (p : ThreadPool τ ι) (t : Thread ι) (call : Call τ) : ThreadPool τ ι :=
  { p with calls := Function.update p.calls t call }

-- Without threads the caller executes the task itself.
def callRun (p : ThreadPool τ ι) (t : Thread ι) (context : TraceContext) (task : Option τ)
    : ThreadPool τ ι :=
  if p.threads.isEmpty then p else p.setCall t (.locking context task)

def push (p : ThreadPool τ ι) (t : Thread ι) (task : Option τ) : ThreadPool τ ι :=
  { p with queue := p.queue ++ [(p.getTraceContext t, task)] }.setCall t .idle

def nextIteration (p : ThreadPool τ ι) (i : Nat) : ThreadPool τ ι :=
  if p.running then p.setWorker i .taking else p.setWorker i .finished

def take (p : ThreadPool τ ι) (i : Nat) (entry : Entry τ) (rest : List (Entry τ))
    : ThreadPool τ ι :=
  { p with queue := rest }.setWorker i (.taken entry)

def execute (p : ThreadPool τ ι) (i : Nat) (entry : Entry τ) : ThreadPool τ ι :=
  (p.setTraceContext (.worker i) entry.1).setWorker i .executing

def endTask (p : ThreadPool τ ι) (i : Nat) : ThreadPool τ ι :=
  (p.resetTraceContext (.worker i)).setWorker i .looping

variable [DecidableEq τ]

def runsUserCode (p : ThreadPool τ ι) : Thread ι → Bool
  | .worker i => p.threads[i]? = some .executing
  | .other _ => true

def mayCall (p : ThreadPool τ ι) (t : Thread ι) : Bool := p.calls t = .idle && p.runsUserCode t

inductive Label (τ : Type u) (ι : Type v) where
  | setTraceContext (t : Thread ι) (context : TraceContext)
  | run (t : Thread ι) (context : TraceContext) (task : Option τ)
  | push (t : Thread ι) (context : TraceContext) (task : Option τ)
  | waitNotFull (t : Thread ι)
  | wakeNotFull (t : Thread ι)
  | iterate (i : Nat)
  | take (i : Nat) (entry : Entry τ)
  | takeNothing (i : Nat)
  | waitNotEmpty (i : Nat)
  | wakeNotEmpty (i : Nat)
  | execute (i : Nat) (context : TraceContext) (task : τ)
  | skip (i : Nat)
  | endTask (i : Nat)
  | start (numThreads : Nat)
  | stop
  | control (k : Nat)

def step (p : ThreadPool τ ι) : Label τ ι → Option (ThreadPool τ ι)
  | .setTraceContext t context => if p.mayCall t then some (p.setTraceContext t context) else none
  | .run t context task =>
    if p.mayCall t ∧ p.getTraceContext t = context then some (p.callRun t context task) else none
  | .push t context task =>
    if p.calls t = .locking context task ∧ !p.isFull then some (p.push t task) else none
  | .waitNotFull t =>
    match p.calls t with
    | .locking context task =>
      if p.isFull then some (p.setCall t (.waitingNotFull context task)) else none
    | _ => none
  | .wakeNotFull t =>
    match p.calls t with
    | .waitingNotFull context task => some (p.setCall t (.locking context task))
    | _ => none
  | .iterate i => if p.threads[i]? = some .looping then some (p.nextIteration i) else none
  | .take i entry =>
    match p.queue with
    | front :: rest =>
      if p.threads[i]? = some .taking ∧ front = entry then some (p.take i entry rest) else none
    | [] => none
  | .takeNothing i =>
    if p.threads[i]? = some .taking ∧ p.queue = [] ∧ !p.running then
      some (p.setWorker i (.taken ((0, 0), none)))
    else
      none
  | .waitNotEmpty i =>
    if p.threads[i]? = some .taking ∧ p.queue = [] ∧ p.running then
      some (p.setWorker i .waitingNotEmpty)
    else
      none
  | .wakeNotEmpty i =>
    if p.threads[i]? = some .waitingNotEmpty then some (p.setWorker i .taking) else none
  | .execute i context task =>
    match p.threads[i]? with
    | some (.taken entry) =>
      let p := p.execute i entry
      if p.getTraceContext (.worker i) = context ∧ entry.2 = some task then some p else none
    | _ => none
  | .skip i =>
    match p.threads[i]? with
    | some (.taken (_, none)) => some (p.setWorker i .looping)
    | _ => none
  | .endTask i =>
    if p.threads[i]? = some .executing ∧ p.calls (.worker i) = .idle then some (p.endTask i) else none
  | .start numThreads =>
    if p.running then
      some p
    else
      some { p with controls := p.controls ++ [.starting numThreads] }
  | .stop =>
    if p.running then
      some { p with controls := p.controls ++ [.stopping] }
    else
      some p
  | .control k =>
    match p.controls[k]? with
    | some control => p.stepControl k control
    | none => none

abbrev run (p : ThreadPool τ ι) (labels : List (Label τ ι)) : Option (ThreadPool τ ι) :=
  Machine.run step p labels

end ThreadPool
end Claire
