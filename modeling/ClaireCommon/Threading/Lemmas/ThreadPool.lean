import ClaireCommon.Threading.Impl.ThreadPool

/-!
This module contains what holds in every run of the thread pool: the queue is a queue with the bound
that is set for it, and every worker executes each task that it takes before it takes another one,
under the context of the thread that handed the task in.
-/

namespace Claire
namespace ThreadPool

universe u v

variable {τ : Type u} {ι : Type v} {p p' : ThreadPool τ ι} {labels : List (Label τ ι)}
  {label : Label τ ι}

structure Calling (p : ThreadPool τ ι) : Prop where
  locking : ∀ t context task, p.calls t = .locking context task → p.contexts t = context
  waiting : ∀ t context task, p.calls t = .waitingNotFull context task → p.contexts t = context
  executing : ∀ i, p.calls (.worker i) ≠ .idle → p.threads[i]? = some .executing

theorem Calling.of_threads (h : Calling p) (hcontexts : p'.contexts = p.contexts)
    (hcalls : p'.calls = p.calls)
    (hthreads : ∀ i, p.threads[i]? = some .executing → p.calls (.worker i) ≠ .idle →
      p'.threads[i]? = some .executing) : Calling p' := by
  constructor
  . rw [hcontexts, hcalls]
    exact h.locking
  . rw [hcontexts, hcalls]
    exact h.waiting
  . intro i hi
    rw [hcalls] at hi
    apply hthreads i (h.executing i hi) hi

theorem Calling.setQueue (h : Calling p) (queue : List (Entry τ))
    : Calling { p with queue := queue } :=
  h.of_threads rfl rfl fun _ hi _ => hi

theorem Calling.setWorker (h : Calling p) {i : Nat} {worker : Worker τ}
    (hidle : p.calls (.worker i) = .idle) : Calling (p.setWorker i worker) := by
  refine h.of_threads rfl rfl ?_
  intro j hexecuting hcall
  have hne : i ≠ j := by
    intro heq
    rw [heq] at hidle
    exact hcall hidle
  dsimp only [ThreadPool.setWorker]
  rw [List.getElem?_set_ne hne]
  exact hexecuting

theorem Calling.idle (h : Calling p) {i : Nat} {worker : Worker τ} (hworker : p.threads[i]? = some worker)
    (hne : worker ≠ .executing) : p.calls (.worker i) = .idle := by
  apply Classical.byContradiction
  intro hcall
  have hexecuting := h.executing i hcall
  rw [hworker] at hexecuting
  injection hexecuting with hexecuting
  exact hne hexecuting

theorem spawn_threads {i j : Nat} {worker : Worker τ} (hworker : p.threads[j]? = some worker)
    (hne : worker ≠ .created) : (p.spawn i).threads[j]? = some worker := by
  have ⟨hlt, _⟩ := List.getElem?_eq_some_iff.mp hworker
  have hsame : (p.threads ++ [Worker.created])[j]? = some worker := by
    rw [List.getElem?_append_left hlt]
    exact hworker
  dsimp only [spawn, startThread]
  split
  . next hcreated =>
    rw [List.getElem?_set_ne]
    . exact hsame
    . intro heq
      rw [heq, hsame] at hcreated
      injection hcreated with hcreated
      exact hne hcreated
  . exact hsame

theorem calling_init (maxQueueSize : Nat) : Calling (init maxQueueSize : ThreadPool τ ι) := by
  constructor
  . intro t context task h
    contradiction
  . intro t context task h
    contradiction
  . intro i h
    contradiction

section Contexts

variable [DecidableEq ι]

theorem Calling.setTraceContext (h : Calling p) {t : Thread ι} {context : TraceContext}
    (hidle : p.calls t = .idle) : Calling (p.setTraceContext t context) := by
  have hother : ∀ t', p.calls t' ≠ .idle →
      Function.update p.contexts t context t' = p.contexts t' := by
    intro t' hcall
    apply Function.update_of_ne
    intro heq
    rw [heq] at hcall
    exact hcall hidle
  constructor
  . intro t' context' task hcall
    dsimp only [ThreadPool.setTraceContext] at hcall ⊢
    rw [hother t' (by simp [hcall])]
    exact h.locking t' context' task hcall
  . intro t' context' task hcall
    dsimp only [ThreadPool.setTraceContext] at hcall ⊢
    rw [hother t' (by simp [hcall])]
    exact h.waiting t' context' task hcall
  . exact h.executing

end Contexts

section Runs

variable [DecidableEq τ]

theorem Calling.runsUserCode (h : Calling p) {t : Thread ι} (hcall : p.calls t ≠ .idle)
    : p.runsUserCode t := by
  cases t with
  | other t => rfl
  | worker i => simpa [ThreadPool.runsUserCode] using h.executing i hcall

end Runs

variable [DecidableEq ι] [DecidableEq τ]

theorem Calling.setCall (h : Calling p) {t : Thread ι} {call : Call τ}
    (hcall : call = .idle ∨ p.runsUserCode t ∧ ∃ task,
      call = .locking (p.contexts t) task ∨ call = .waitingNotFull (p.contexts t) task)
    : Calling (p.setCall t call) := by
  have hlocking : ∀ context task, call = .locking context task → p.contexts t = context := by
    intro context task heq
    grind
  have hwaiting : ∀ context task, call = .waitingNotFull context task → p.contexts t = context := by
    intro context task heq
    grind
  constructor
  . intro t' context task heq
    dsimp only [ThreadPool.setCall] at heq ⊢
    by_cases ht : t' = t
    . rw [ht, Function.update_self] at heq
      rw [ht]
      apply hlocking context task heq
    . rw [Function.update_of_ne ht] at heq
      apply h.locking t' context task heq
  . intro t' context task heq
    dsimp only [ThreadPool.setCall] at heq ⊢
    by_cases ht : t' = t
    . rw [ht, Function.update_self] at heq
      rw [ht]
      apply hwaiting context task heq
    . rw [Function.update_of_ne ht] at heq
      apply h.waiting t' context task heq
  . intro i hi
    dsimp only [ThreadPool.setCall] at hi ⊢
    by_cases ht : .worker i = t
    . rw [ht, Function.update_self] at hi
      cases hcall with
      | inl hidle => exact absurd hidle hi
      | inr hruns =>
        rw [← ht] at hruns
        simpa [ThreadPool.runsUserCode] using hruns.1
    . rw [Function.update_of_ne ht] at hi
      apply h.executing i hi

inductive Stepped (p : ThreadPool τ ι) : Label τ ι → ThreadPool τ ι → Prop
  | setTraceContext {t : Thread ι} {context : TraceContext} (hcall : p.mayCall t)
      : Stepped p (.setTraceContext t context) (p.setTraceContext t context)
  | run {t : Thread ι} {task : Option τ} (hcall : p.mayCall t)
      : Stepped p (.run t (p.contexts t) task) (p.callRun t (p.contexts t) task)
  | push {t : Thread ι} {context : TraceContext} {task : Option τ}
      (hcall : p.calls t = .locking context task) (hfull : p.isFull = false)
      : Stepped p (.push t context task) (p.push t task)
  | waitNotFull {t : Thread ι} {context : TraceContext} {task : Option τ}
      (hcall : p.calls t = .locking context task)
      : Stepped p (.waitNotFull t) (p.setCall t (.waitingNotFull context task))
  | wakeNotFull {t : Thread ι} {context : TraceContext} {task : Option τ}
      (hcall : p.calls t = .waitingNotFull context task)
      : Stepped p (.wakeNotFull t) (p.setCall t (.locking context task))
  | iterate {i : Nat} (hworker : p.threads[i]? = some .looping)
      : Stepped p (.iterate i) (p.nextIteration i)
  | take {i : Nat} {entry : Entry τ} {rest : List (Entry τ)} (hworker : p.threads[i]? = some .taking)
      (hqueue : p.queue = entry :: rest) : Stepped p (.take i entry) (p.take i entry rest)
  | takeNothing {i : Nat} (hworker : p.threads[i]? = some .taking)
      : Stepped p (.takeNothing i) (p.setWorker i (.taken ((0, 0), none)))
  | waitNotEmpty {i : Nat} (hworker : p.threads[i]? = some .taking)
      : Stepped p (.waitNotEmpty i) (p.setWorker i .waitingNotEmpty)
  | wakeNotEmpty {i : Nat} (hworker : p.threads[i]? = some .waitingNotEmpty)
      : Stepped p (.wakeNotEmpty i) (p.setWorker i .taking)
  | execute {i : Nat} {context : TraceContext} {task : τ}
      (hworker : p.threads[i]? = some (.taken (context, some task)))
      : Stepped p (.execute i context task) (p.execute i (context, some task))
  | skip {i : Nat} {context : TraceContext} (hworker : p.threads[i]? = some (.taken (context, none)))
      : Stepped p (.skip i) (p.setWorker i .looping)
  | endTask {i : Nat} (hworker : p.threads[i]? = some .executing) (hcall : p.calls (.worker i) = .idle)
      : Stepped p (.endTask i) (p.endTask i)
  | spawn {k i : Nat} {controls : List Control}
      : Stepped p (.control k) { p.spawn i with controls := controls }
  | start {numThreads : Nat} {controls : List Control}
      : Stepped p (.start numThreads) { p with controls := controls }
  | stop {controls : List Control} : Stepped p .stop { p with controls := controls }
  | control {k : Nat} {running : Bool} {controls : List Control}
      : Stepped p (.control k) { p with running := running, controls := controls }

theorem stepped_of_stepControl {k : Nat} {control : Control} (h : p.stepControl k control = some p')
    : Stepped p (.control k) p' := by
  cases control with
  | starting numThreads =>
    injection h with h
    subst h
    apply Stepped.control
  | spawning i numThreads =>
    dsimp only [stepControl] at h
    split at h
    . injection h with h
      subst h
      apply Stepped.spawn
    . injection h with h
      subst h
      apply Stepped.control
  | stopping =>
    injection h with h
    subst h
    apply Stepped.control
  | notifying =>
    injection h with h
    subst h
    apply Stepped.control
  | joining =>
    dsimp only [stepControl] at h
    split at h
    . injection h with h
      subst h
      apply Stepped.control
    . contradiction

theorem stepped_of_step (h : p.step label = some p') : Stepped p label p' := by
  cases label with
  | control k =>
    dsimp only [step] at h
    split at h
    . apply stepped_of_stepControl h
    . contradiction
  | start numThreads =>
    dsimp only [step] at h
    split at h
    all_goals
      injection h with h
      subst h
      apply Stepped.start
  | stop =>
    dsimp only [step] at h
    split at h
    all_goals
      injection h with h
      subst h
      apply Stepped.stop
  | setTraceContext t context =>
    dsimp only [step] at h
    split at h
    . next hcall =>
      injection h with h
      subst h
      exact .setTraceContext hcall
    . contradiction
  | run t context task =>
    dsimp only [step] at h
    split at h
    . next hcall =>
      have ⟨hmay, hcontext⟩ := hcall
      injection h with h
      subst h hcontext
      exact .run hmay
    . contradiction
  | push t context task =>
    dsimp only [step] at h
    split at h
    . next hcall =>
      have ⟨hcall, hfull⟩ := hcall
      injection h with h
      subst h
      exact .push hcall (by simpa using hfull)
    . contradiction
  | waitNotFull t =>
    dsimp only [step] at h
    split at h
    . next hcall =>
      split at h
      . injection h with h
        subst h
        exact .waitNotFull hcall
      . contradiction
    . contradiction
  | wakeNotFull t =>
    dsimp only [step] at h
    split at h
    . next hcall =>
      injection h with h
      subst h
      exact .wakeNotFull hcall
    . contradiction
  | iterate i =>
    dsimp only [step] at h
    split at h
    . next hworker =>
      injection h with h
      subst h
      exact .iterate hworker
    . contradiction
  | take i entry =>
    dsimp only [step] at h
    split at h
    . next front rest hqueue =>
      split at h
      . next hworker =>
        have ⟨htaking, hfront⟩ := hworker
        injection h with h
        subst h hfront
        exact .take htaking hqueue
      . contradiction
    . contradiction
  | takeNothing i =>
    dsimp only [step] at h
    split at h
    . next hworker =>
      injection h with h
      subst h
      exact .takeNothing hworker.1
    . contradiction
  | waitNotEmpty i =>
    dsimp only [step] at h
    split at h
    . next hworker =>
      injection h with h
      subst h
      exact .waitNotEmpty hworker.1
    . contradiction
  | wakeNotEmpty i =>
    dsimp only [step] at h
    split at h
    . next hworker =>
      injection h with h
      subst h
      exact .wakeNotEmpty hworker
    . contradiction
  | execute i context task =>
    dsimp only [step] at h
    split at h
    . next entry hworker =>
      have ⟨entryContext, entryTask⟩ := entry
      split at h
      . next hentry =>
        have ⟨hcontext, htask⟩ := hentry
        injection h with h
        have hcontext : entryContext = context := by
          simpa [getTraceContext, execute, setTraceContext, setWorker] using hcontext
        dsimp only at htask
        subst h hcontext htask
        exact .execute hworker
      . contradiction
    . contradiction
  | skip i =>
    dsimp only [step] at h
    split at h
    . next hworker =>
      injection h with h
      subst h
      exact .skip hworker
    . contradiction
  | endTask i =>
    dsimp only [step] at h
    split at h
    . next hworker =>
      injection h with h
      subst h
      exact .endTask hworker.1 hworker.2
    . contradiction

theorem calling_of_stepped (h : Calling p) (hstep : Stepped p label p') : Calling p' := by
  have hmay {t : Thread ι} (hcall : p.mayCall t) : p.calls t = .idle ∧ p.runsUserCode t := by
    simpa [mayCall] using hcall
  cases hstep with
  | setTraceContext hcall => apply h.setTraceContext (hmay hcall).1
  | @run t task hcall =>
    unfold callRun
    split
    . exact h
    . apply h.setCall (Or.inr ⟨(hmay hcall).2, task, Or.inl rfl⟩)
  | push hcall hfull =>
    apply (h.setQueue _).setCall (Or.inl rfl)
  | @waitNotFull t context task hcall =>
    have hcontext := h.locking _ _ _ hcall
    apply h.setCall (Or.inr ⟨h.runsUserCode (by simp [hcall]), task, Or.inr _⟩)
    rw [hcontext]
  | @wakeNotFull t context task hcall =>
    have hcontext := h.waiting _ _ _ hcall
    apply h.setCall (Or.inr ⟨h.runsUserCode (by simp [hcall]), task, Or.inl _⟩)
    rw [hcontext]
  | iterate hworker =>
    have hidle := h.idle hworker (by simp)
    unfold nextIteration
    split
    . apply h.setWorker hidle
    . apply h.setWorker hidle
  | @take i entry rest hworker hqueue =>
    apply (h.setQueue rest).setWorker (h.idle hworker (by simp))
  | takeNothing hworker => apply h.setWorker (h.idle hworker (by simp))
  | waitNotEmpty hworker => apply h.setWorker (h.idle hworker (by simp))
  | wakeNotEmpty hworker => apply h.setWorker (h.idle hworker (by simp))
  | execute hworker =>
    have hidle := h.idle hworker (by simp)
    apply (h.setTraceContext hidle).setWorker hidle
  | skip hworker => apply h.setWorker (h.idle hworker (by simp))
  | endTask hworker hcall => apply (h.setTraceContext hcall).setWorker hcall
  | spawn =>
    refine h.of_threads rfl rfl ?_
    intro i hi _
    apply spawn_threads hi (by simp)
  | start => exact h.of_threads rfl rfl fun _ hi _ => hi
  | stop => exact h.of_threads rfl rfl fun _ hi _ => hi
  | control => exact h.of_threads rfl rfl fun _ hi _ => hi

def Label.pushed : Label τ ι → Option (Entry τ)
  | .push _ context task => some (context, task)
  | _ => none

def Label.taken : Label τ ι → Option (Entry τ)
  | .take _ entry => some entry
  | _ => none

-- Of each entry the context is the one that its submitter had when it called `Run`.
def pushedEntries (labels : List (Label τ ι)) : List (Entry τ) := labels.filterMap Label.pushed

def takenEntries (labels : List (Label τ ι)) : List (Entry τ) := labels.filterMap Label.taken

theorem queue_of_stepped (h : Calling p) (hstep : Stepped p label p')
    : label.taken.toList ++ p'.queue = p.queue ++ label.pushed.toList := by
  cases hstep with
  | push hcall hfull =>
    rw [← h.locking _ _ _ hcall]
    rfl
  | take hworker hqueue =>
    rw [hqueue]
    exact (List.append_nil _).symm
  | run hcall =>
    unfold callRun
    split <;> exact (List.append_nil _).symm
  | iterate hworker =>
    unfold nextIteration
    split <;> exact (List.append_nil _).symm
  | _ => exact (List.append_nil _).symm

theorem maxQueueSize_of_stepped (hstep : Stepped p label p') : p'.maxQueueSize = p.maxQueueSize := by
  cases hstep with
  | run hcall =>
    unfold callRun
    split <;> rfl
  | iterate hworker =>
    unfold nextIteration
    split <;> rfl
  | _ => rfl

def Bounded (p : ThreadPool τ ι) : Prop := 0 < p.maxQueueSize → p.queue.length ≤ p.maxQueueSize

theorem bounded_of_stepped (hcalling : Calling p) (h : Bounded p) (hstep : Stepped p label p')
    : Bounded p' := by
  intro hpos
  have hmax := maxQueueSize_of_stepped hstep
  have hqueue := congrArg List.length (queue_of_stepped hcalling hstep)
  rw [List.length_append, List.length_append] at hqueue
  rw [hmax] at hpos ⊢
  have hbound := h hpos
  have hroom : label.pushed = none ∨ p.queue.length < p.maxQueueSize := by
    cases hstep with
    | push hcall hfull => exact Or.inr (by simpa [isFull, hpos] using hfull)
    | _ => exact Or.inl rfl
  cases hpushed : label.pushed with
  | none =>
    rw [hpushed, Option.toList_none, List.length_nil] at hqueue
    omega
  | some entry =>
    rw [hpushed, Option.toList_some, List.length_singleton] at hqueue
    have := hroom.resolve_left (by simp [hpushed])
    omega

inductive WorkerEvent (τ : Type u) where
  | take (entry : Entry τ)
  | execute (context : TraceContext) (task : τ)
  deriving DecidableEq

def Label.workerEvent (i : Nat) : Label τ ι → Option (WorkerEvent τ)
  | .take j entry => if j = i then some (.take entry) else none
  | .execute j context task => if j = i then some (.execute context task) else none
  | _ => none

def workerEvents (i : Nat) (labels : List (Label τ ι)) : List (WorkerEvent τ) :=
  labels.filterMap (Label.workerEvent i)

def turn : Entry τ → List (WorkerEvent τ)
  | (context, some task) => [.take (context, some task), .execute context task]
  | (context, none) => [.take (context, none)]

def Worker.inHand : Worker τ → List (WorkerEvent τ)
  | .taken (context, some task) => [.take (context, some task)]
  | _ => []

def inHand (threads : List (Worker τ)) (i : Nat) : List (WorkerEvent τ) :=
  (threads[i]?.map Worker.inHand).getD []

section InHand

omit [DecidableEq τ]

variable {threads : List (Worker τ)} {i j : Nat} {old worker : Worker τ}

theorem inHand_eq (h : threads[i]? = some worker) : inHand threads i = worker.inHand := by
  unfold inHand
  rw [h]
  rfl

theorem inHand_set (h : threads[j]? = some old)
    : inHand (threads.set j worker) i = if j = i then worker.inHand else inHand threads i := by
  have ⟨hlt, _⟩ := List.getElem?_eq_some_iff.mp h
  unfold inHand
  by_cases heq : j = i
  . rw [← heq, List.getElem?_set_self hlt, if_pos rfl]
    rfl
  . rw [List.getElem?_set_ne heq, if_neg heq]

theorem inHand_set_of_nil (h : threads[j]? = some old) (hold : old.inHand = [])
    (hworker : worker.inHand = []) : inHand (threads.set j worker) i = inHand threads i := by
  rw [inHand_set h]
  split
  . next heq => rw [hworker, ← heq, inHand_eq h, hold]
  . rfl

theorem inHand_startThread : inHand (startThread threads j) i = inHand threads i := by
  unfold startThread
  split
  . next hcreated => apply inHand_set_of_nil hcreated rfl rfl
  . rfl

theorem inHand_append_created : inHand (threads ++ [Worker.created]) i = inHand threads i := by
  unfold inHand
  rw [List.getElem?_append]
  split
  . rfl
  . next hge =>
    have hnone : threads[i]? = none := List.getElem?_eq_none (by omega)
    rw [hnone]
    cases i - threads.length <;> rfl

end InHand

theorem turns_of_stepped (i : Nat) (hstep : Stepped p label p')
    : ∃ entries : List (Entry τ), inHand p.threads i ++ (label.workerEvent i).toList
        = entries.flatMap turn ++ inHand p'.threads i := by
  have hsame {threads : List (Worker τ)} (hhand : inHand threads i = inHand p.threads i)
      : ∃ entries : List (Entry τ),
        inHand p.threads i ++ (none : Option (WorkerEvent τ)).toList
          = entries.flatMap turn ++ inHand threads i := by
    refine ⟨[], ?_⟩
    rw [hhand, Option.toList_none, List.append_nil]
    rfl
  cases hstep with
  | run hcall =>
    unfold callRun
    split
    . exact hsame rfl
    . exact hsame rfl
  | iterate hworker =>
    unfold nextIteration
    split
    . exact hsame (inHand_set_of_nil hworker rfl rfl)
    . exact hsame (inHand_set_of_nil hworker rfl rfl)
  | @take j entry rest hworker hqueue =>
    have hset : inHand (p.take j entry rest).threads i
        = if j = i then Worker.inHand (.taken entry) else inHand p.threads i :=
      inHand_set hworker
    rw [hset]
    split
    . next heq =>
      rw [← heq, inHand_eq hworker]
      match entry with
      | (context, some task) => exact ⟨[], by simp [Worker.inHand, Label.workerEvent]⟩
      | (context, none) => exact ⟨[(context, none)], by simp [Worker.inHand, Label.workerEvent, turn]⟩
    . next hne => exact ⟨[], by simp [Label.workerEvent, hne]⟩
  | takeNothing hworker => exact hsame (inHand_set_of_nil hworker rfl rfl)
  | waitNotEmpty hworker => exact hsame (inHand_set_of_nil hworker rfl rfl)
  | wakeNotEmpty hworker => exact hsame (inHand_set_of_nil hworker rfl rfl)
  | @execute j context task hworker =>
    have hset : inHand (p.execute j (context, some task)).threads i
        = if j = i then [] else inHand p.threads i :=
      inHand_set hworker
    rw [hset]
    split
    . next heq =>
      refine ⟨[(context, some task)], ?_⟩
      rw [← heq, inHand_eq hworker]
      simp [Worker.inHand, Label.workerEvent, turn]
    . next hne =>
      refine ⟨[], ?_⟩
      simp [Label.workerEvent, hne]
  | skip hworker => exact hsame (inHand_set_of_nil hworker rfl rfl)
  | endTask hworker hcall => exact hsame (inHand_set_of_nil hworker rfl rfl)
  | spawn => exact hsame (inHand_startThread.trans inHand_append_created)
  | _ => exact hsame rfl

structure RunsTasks (maxQueueSize : Nat) (labels : List (Label τ ι)) (p : ThreadPool τ ι)
    : Prop where
  fifo : takenEntries labels ++ p.queue = pushedEntries labels
  bound : 0 < maxQueueSize → p.queue.length ≤ maxQueueSize
  once : ∀ i, ∃ entries : List (Entry τ),
    workerEvents i labels = entries.flatMap turn ++ inHand p.threads i
  -- Nothing keeps a worker from executing what it has taken.
  progress : ∀ i context task, p.threads[i]? = some (.taken (context, some task)) →
    ∃ p', p.step (.execute i context task) = some p'

theorem exists_execute {i : Nat} {context : TraceContext} {task : τ}
    (hworker : p.threads[i]? = some (.taken (context, some task)))
    : ∃ p', p.step (.execute i context task) = some p' := by
  dsimp only [step]
  rw [hworker]
  refine ⟨p.execute i (context, some task), ?_⟩
  dsimp only
  rw [if_pos]
  simp [getTraceContext, execute, setTraceContext, setWorker]

theorem calling_of_run {maxQueueSize : Nat} (hrun : run (init maxQueueSize) labels = some p)
    : Calling p := by
  apply Machine.run_invariant _ (calling_init maxQueueSize) hrun
  intro q label q' h hstep
  apply calling_of_stepped h (stepped_of_step hstep)

theorem maxQueueSize_of_run {maxQueueSize : Nat} (hrun : run (init maxQueueSize) labels = some p)
    : p.maxQueueSize = maxQueueSize := by
  apply Machine.run_invariant (P := fun q => q.maxQueueSize = maxQueueSize) _ rfl hrun
  intro q label q' h hstep
  rw [maxQueueSize_of_stepped (stepped_of_step hstep), h]

theorem queue_of_run {maxQueueSize : Nat} (hrun : run (init maxQueueSize) labels = some p)
    : takenEntries labels ++ p.queue = pushedEntries labels := by
  refine Machine.run_induction (P := fun labels q =>
    takenEntries labels ++ q.queue = pushedEntries labels) rfl ?_ hrun
  intro labels q label q' hq h hstep
  have hqueue := queue_of_stepped (calling_of_run hq) (stepped_of_step hstep)
  unfold takenEntries pushedEntries at h ⊢
  rw [Machine.filterMap_concat, Machine.filterMap_concat, List.append_assoc, hqueue,
    ← List.append_assoc, h]

theorem bounded_of_run {maxQueueSize : Nat} (hrun : run (init maxQueueSize) labels = some p)
    : Bounded p := by
  refine Machine.run_induction (P := fun _ q => Bounded q) ?_ ?_ hrun
  . intro hpos
    apply Nat.zero_le
  . intro labels q label q' hq h hstep
    apply bounded_of_stepped (calling_of_run hq) h (stepped_of_step hstep)

theorem turns_of_run {maxQueueSize : Nat} (hrun : run (init maxQueueSize) labels = some p) (i : Nat)
    : ∃ entries : List (Entry τ),
      workerEvents i labels = entries.flatMap turn ++ inHand p.threads i := by
  refine Machine.run_induction (P := fun labels q => ∃ entries : List (Entry τ),
    workerEvents i labels = entries.flatMap turn ++ inHand q.threads i) ⟨[], rfl⟩ ?_ hrun
  intro labels q label q' hq h hstep
  have ⟨entries, hentries⟩ := h
  have ⟨more, hmore⟩ := turns_of_stepped i (stepped_of_step hstep)
  refine ⟨entries ++ more, ?_⟩
  unfold workerEvents at hentries ⊢
  rw [Machine.filterMap_concat, hentries, List.append_assoc, hmore, List.flatMap_append,
    List.append_assoc]

theorem runsTasks_of_run {maxQueueSize : Nat} (hrun : run (init maxQueueSize) labels = some p)
    : RunsTasks maxQueueSize labels p := by
  constructor
  . apply queue_of_run hrun
  . have hbounded := bounded_of_run hrun
    unfold Bounded at hbounded
    rw [maxQueueSize_of_run hrun] at hbounded
    exact hbounded
  . intro i
    apply turns_of_run hrun
  . intro i context task hworker
    apply exists_execute hworker

/-! Two tasks pass a queue with room for one, `stop` is called while the first one is executed. -/

def exampleLabels : List (Label Nat Unit) := [
  .start 1, .control 0, .control 0, .control 0, .setTraceContext (.other ()) (7, 8),
  .run (.other ()) (7, 8) (some 1), .push (.other ()) (7, 8) (some 1),
  .run (.other ()) (7, 8) (some 2), .waitNotFull (.other ()),
  .iterate 0, .take 0 ((7, 8), some 1), .execute 0 (7, 8) 1,
  .wakeNotFull (.other ()), .push (.other ()) (7, 8) (some 2), .stop, .control 0]

theorem runsTasks_of_run_bounded
    : ∃ p, run (init 1) exampleLabels = some p ∧ RunsTasks 1 exampleLabels p := by
  refine ⟨_, rfl, ?_⟩
  apply runsTasks_of_run rfl

end ThreadPool
end Claire
