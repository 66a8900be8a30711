import ClaireCommon.Threading.Lemmas.Monitor

/-!
This module contains when `Stop` leaves a caller of `Run` behind that waits for room in the queue
while no worker is left to make it.
-/

namespace Claire
namespace ThreadPool
namespace Monitor

universe u v

variable {τ : Type u} {ι : Type v} {s : Monitor τ ι}

-- All the workers have left `RunInThread`, and somebody still waits for a signal of `not_full_`.
def Stranded (numThreads : Nat) (s : Monitor τ ι) : Prop :=
  s.pool.threads = List.replicate numThreads .finished ∧ s.notFull.waiting.Nonempty

def Label.isStart : Label τ ι → Bool
  | .pool (.start _) => true
  | _ => false

def Label.isStop : Label τ ι → Bool
  | .pool .stop => true
  | _ => false

theorem toPool_start {as : List (Label τ ι)} (h : as.countP Label.isStart = 0)
    {label : ThreadPool.Label τ ι} (hlabel : label ∈ as.filterMap Label.toPool) (n : Nat)
    : label ≠ .start n := by
  intro heq
  rw [List.mem_filterMap] at hlabel
  have ⟨a, ha, hpool⟩ := hlabel
  rw [heq] at hpool
  have hstart := List.countP_eq_zero.mp h a ha
  cases a with
  | pool label =>
    injection hpool with hpool
    rw [hpool] at hstart
    contradiction
  | _ => simp [Label.toPool] at hpool

def stage (maxQueueSize : Nat) (running : Bool) (threads : List (Worker τ)) (queue : List (Entry τ))
    (controls : List Control) (calls : Thread ι → Call τ) : Monitor τ ι where
  pool := {
    maxQueueSize := maxQueueSize
    running := running
    threads := threads
    queue := queue
    contexts := fun _ => (0, 0)
    calls := calls
    controls := controls
  }
  lock := none
  notEmpty := .empty
  notFull := .empty

def idle : Thread ι → Call τ := fun _ => .idle

def spawnLabels (k : Nat) : List (Label τ ι) := List.replicate k (.pool (.control 0))

def pushLabels (k : Nat) (t : ι) (task : τ) : List (Label τ ι) :=
  List.flatten <| List.replicate k [.pool (.run (.other t) (0, 0) (some task)),
    .push (.other t) (0, 0) (some task) none]

def waitLabels (t : ι) (task : τ) : List (Label τ ι) :=
  [.pool (.run (.other t) (0, 0) (some task)), .pool (.waitNotFull (.other t)), .pool .stop,
    .pool (.control 0)]

def iterateLabels (i k : Nat) : List (Label τ ι) := (List.range' i k).map fun i => .pool (.iterate i)

def strandingLabels (m n : Nat) (t : ι) (task : τ) : List (Label τ ι) :=
  spawnLabels 1 ++ (spawnLabels n ++ (spawnLabels 1 ++ (pushLabels m t task
    ++ (waitLabels t task ++ iterateLabels 0 n))))

theorem spawnLabels_succ (k : Nat)
    : (spawnLabels (k + 1) : List (Label τ ι)) = .pool (.control 0) :: spawnLabels k := rfl

theorem pushLabels_succ (k : Nat) (t : ι) (task : τ)
    : pushLabels (k + 1) t task = .pool (.run (.other t) (0, 0) (some task))
        :: .push (.other t) (0, 0) (some task) none :: pushLabels k t task := rfl

theorem iterateLabels_succ (i k : Nat)
    : (iterateLabels i (k + 1) : List (Label τ ι)) = .pool (.iterate i) :: iterateLabels (i + 1) k := rfl

theorem countP_strandingLabels {m n : Nat} {t : ι} {task : τ} (f : Label τ ι → Bool)
    (hcontrol : f (.pool (.control 0)) = false)
    (hrun : ∀ t context task, f (.pool (.run t context task)) = false)
    (hpush : ∀ t context task worker, f (.push t context task worker) = false)
    (hwait : ∀ t, f (.pool (.waitNotFull t)) = false) (hiterate : ∀ i, f (.pool (.iterate i)) = false)
    : (strandingLabels m n t task).countP f = if f (.pool .stop) then 1 else 0 := by
  have hpushes : (pushLabels m t task).countP f = 0 := by
    rw [List.countP_eq_zero]
    intro a ha
    unfold pushLabels at ha
    simp only [List.mem_flatten, List.mem_replicate] at ha
    have ⟨as, ⟨_, has⟩, ha⟩ := ha
    rw [has] at ha
    grind
  have hiterates : (iterateLabels 0 n).countP f = 0 := by
    unfold iterateLabels
    rw [List.countP_eq_zero]
    grind
  have hspawns : ∀ k, (spawnLabels k).countP f = 0 := by
    intro k
    unfold spawnLabels
    rw [List.countP_replicate]
    simp [hcontrol]
  have hwaits : (waitLabels t task).countP f = if f (.pool .stop) then 1 else 0 := by
    simp [waitLabels, List.countP_cons, hcontrol, hrun, hwait]
  simp [strandingLabels, hspawns, hpushes, hiterates, hwaits]

section Runs

variable [DecidableEq ι] [DecidableEq τ]

variable {m : Nat} {threads : List (Worker τ)} {queue : List (Entry τ)} {t : ι} {task : τ}

theorem run_spawn {i k n : Nat} (hn : i + k = n)
    : run (stage m true (List.replicate i .looping) queue [.spawning i n] (idle : Thread ι → Call τ))
        (spawnLabels k)
      = some (stage m true (List.replicate n .looping) queue [.spawning n n] idle) := by
  induction k generalizing i with
  | zero =>
    rw [← hn]
    rfl
  | succ k ih =>
    have hstart : startThread (List.replicate i Worker.looping ++ [Worker.created]) i
        = List.replicate (i + 1) (.looping : Worker τ) := by
      unfold startThread
      simp [List.replicate_succ']
    have hlt : i < n := by omega
    have hstep : (stage m true (List.replicate i .looping) queue [.spawning i n]
          (idle : Thread ι → Call τ)).step (.pool (.control 0))
        = some (stage m true (List.replicate (i + 1) .looping) queue [.spawning (i + 1) n] idle) := by
      simp [Monitor.step, ThreadPool.step, stage, stepControl, spawn, setControl, hstart, goOn, hlt]
    rw [spawnLabels_succ, run, Machine.run_cons, hstep, Option.bind_some]
    apply ih
    omega

def locking (t : ι) (task : τ) : Thread ι → Call τ :=
  Function.update idle (.other t) (.locking (0, 0) (some task))

theorem step_run (hthreads : threads ≠ [])
    : (stage m true threads queue [] idle).step (.pool (.run (.other t) (0, 0) (some task)))
      = some (stage m true threads queue [] (locking t task)) := by
  have hempty : threads.isEmpty = false := List.isEmpty_eq_false_iff.mpr hthreads
  simp [Monitor.step, ThreadPool.step, stage, mayCall, runsUserCode, getTraceContext, callRun, goOn,
    setCall, idle, locking, hempty]

theorem step_push (hroom : queue.length < m)
    : (stage m true threads queue [] (locking t task)).step (.push (.other t) (0, 0) (some task) none)
      = some (stage m true threads (queue ++ [((0, 0), some task)]) [] idle) := by
  have hfull : ¬ m ≤ queue.length := by omega
  have hidle : Function.update (locking t task) (.other t) .idle = (idle : Thread ι → Call τ) := by
    unfold locking
    rw [Function.update_idem]
    exact Function.update_eq_self _ _
  have hpool : (stage m true threads queue [] (locking t task)).pool.step
        (.push (.other t) (0, 0) (some task))
      = some (stage m true threads (queue ++ [((0, 0), some task)]) [] idle).pool := by
    simp [ThreadPool.step, stage, isFull, ThreadPool.push, setCall, getTraceContext, hidle, hfull]
    simp [locking]
  simp only [Monitor.step, Monitor.push, hpool]
  simp [stage, Condition.notify, Condition.empty, Condition.back]

theorem run_push {k : Nat} (hthreads : threads ≠ []) (hroom : queue.length + k ≤ m)
    : run (stage m true threads queue [] (idle : Thread ι → Call τ))
        (pushLabels k t task)
      = some (stage m true threads (queue ++ List.replicate k ((0, 0), some task)) [] idle) := by
  induction k generalizing queue with
  | zero => simp [pushLabels]
  | succ k ih =>
    rw [pushLabels_succ, run, Machine.run_cons, step_run hthreads, Option.bind_some, Machine.run_cons,
      step_push (by omega), Option.bind_some]
    rw [← run, ih, List.append_assoc]
    . rfl
    . rw [List.length_append, List.length_singleton]
      omega

theorem run_iterate {i k n : Nat} (hn : i + k = n) (hrunning : s.pool.running = false)
    (hthreads : s.pool.threads = List.replicate i Worker.finished ++ List.replicate k Worker.looping)
    : run s (iterateLabels i k)
      = some { s with pool := { s.pool with threads := List.replicate n .finished } } := by
  induction k generalizing s i with
  | zero =>
    rw [← hn, Nat.add_zero]
    rw [List.replicate_zero, List.append_nil] at hthreads
    rw [← hthreads]
    rfl
  | succ k ih =>
    have hworker : s.pool.threads[i]? = some .looping := by
      simp [hthreads, List.replicate_succ]
    have hset : s.pool.threads.set i .finished
        = List.replicate (i + 1) Worker.finished ++ List.replicate k Worker.looping := by
      rw [hthreads, List.replicate_succ (n := k), List.replicate_succ' (n := i)]
      simp
    have hstep : s.step (.pool (.iterate i)) = some { s with
        pool := s.pool.setWorker i .finished } := by
      simp [Monitor.step, ThreadPool.step, hworker, nextIteration, hrunning, goOn]
    rw [iterateLabels_succ, run, Machine.run_cons, hstep, Option.bind_some, ← run,
      ih (by omega)]
    . rfl
    . exact hrunning
    . exact hset

theorem run_wait (hm : 0 < m) (hthreads : threads ≠ []) (hfull : m ≤ queue.length)
    : ∃ s, run (stage m true threads queue [] idle)
        (waitLabels t task) = some s
      ∧ s.pool.running = false ∧ s.pool.threads = threads ∧ .other t ∈ s.notFull.waiting := by
  rw [waitLabels, run, Machine.run_cons, step_run hthreads, Option.bind_some]
  simp [Monitor.step, ThreadPool.step, stage, locking, ThreadPool.isFull, hm, hfull, goOn, stepControl,
    setControl, setCall]

theorem exists_stranded {n : Nat} (hm : 0 < m) (hn : 0 < n) (t : ι) (task : τ)
    : ∃ s, run (create m) (.pool (.start n) :: strandingLabels m n t task) = some s ∧ Stranded n s := by
  have hthreads : List.replicate n (.looping : Worker τ) ≠ [] := by
    simp
    omega
  have hstart : run (create m) [.pool (.start n), .pool (.control 0)]
      = some (stage m true [] [] [.spawning 0 n] (idle : Thread ι → Call τ)) := rfl
  have hspawn : run (stage m true [] [] [.spawning 0 n] (idle : Thread ι → Call τ))
        (spawnLabels n)
      = some (stage m true (List.replicate n .looping) [] [.spawning n n] idle) :=
    run_spawn (i := 0) (Nat.zero_add n)
  have hreturn : run (stage m true (List.replicate n .looping) [] [.spawning n n]
        (idle : Thread ι → Call τ)) [.pool (.control 0)]
      = some (stage m true (List.replicate n .looping) [] [] idle) := by
    simp [run, Monitor.step, ThreadPool.step, stage, stepControl, returnControl, goOn]
  have hpush : run (stage m true (List.replicate n .looping) [] [] (idle : Thread ι → Call τ))
        (pushLabels m t task)
      = some (stage m true (List.replicate n .looping)
        (List.replicate m ((0, 0), some task)) [] idle) := by
    apply run_push hthreads
    simp
  have ⟨s, hwait, hrunning, hlooping, hwaiting⟩ : ∃ s, run (stage m true (List.replicate n .looping)
        (List.replicate m ((0, 0), some task)) [] idle)
        (waitLabels t task) = some s
      ∧ s.pool.running = false ∧ s.pool.threads = List.replicate n .looping
      ∧ .other t ∈ s.notFull.waiting := by
    apply run_wait hm hthreads
    simp
  have hiterate := run_iterate (i := 0) (Nat.zero_add n) hrunning hlooping
  have hstopped := Machine.run_append_eq_some.mpr ⟨_, hwait, hiterate⟩
  have hpushed := Machine.run_append_eq_some.mpr ⟨_, hpush, hstopped⟩
  have hreturned := Machine.run_append_eq_some.mpr ⟨_, hreturn, hpushed⟩
  have hspawned := Machine.run_append_eq_some.mpr ⟨_, hspawn, hreturned⟩
  have hall := Machine.run_append_eq_some.mpr ⟨_, hstart, hspawned⟩
  exact ⟨_, hall, rfl, ⟨.other t, hwaiting⟩⟩

end Runs

-- A pool without threads, of which nobody makes any
structure Threadless (p : ThreadPool τ ι) : Prop where
  threads : p.threads = []
  calls : ∀ t, p.calls t = .idle
  controls : ∀ control ∈ p.controls, control = .starting 0 ∨ control = .spawning 0 0
    ∨ control = .stopping ∨ control = .notifying ∨ control = .joining

variable {p p' : ThreadPool τ ι}

theorem Threadless.of_controls (h : Threadless p) (hthreads : p'.threads = p.threads)
    (hcalls : p'.calls = p.calls) (hcontrols : ∀ control ∈ p'.controls, control ∈ p.controls
      ∨ control = .starting 0 ∨ control = .spawning 0 0
      ∨ control = .stopping ∨ control = .notifying ∨ control = .joining) : Threadless p' where
  threads := by
    rw [hthreads]
    exact h.threads
  calls := by
    rw [hcalls]
    exact h.calls
  controls := by
    intro control hcontrol
    cases hcontrols control hcontrol with
    | inl hold => exact h.controls control hold
    | inr hnew => exact hnew

theorem threadless_stepControl {k : Nat} {control : Control} (h : Threadless p)
    (hcontrol : p.controls[k]? = some control) (hstep : p.stepControl k control = some p')
    : Threadless p' := by
  have hset : ∀ control', control' = .spawning 0 0 ∨ control' = .notifying ∨ control' = .joining →
      ∀ c ∈ p.controls.set k control', c ∈ p.controls ∨ c = .starting 0 ∨ c = .spawning 0 0
        ∨ c = .stopping ∨ c = .notifying ∨ c = .joining := by
    intro control' hcontrol' c hc
    cases List.mem_or_eq_of_mem_set hc with
    | inl hold => exact Or.inl hold
    | inr hnew => grind
  have herase : ∀ c ∈ p.controls.eraseIdx k, c ∈ p.controls := by
    intro c hc
    exact List.mem_of_mem_eraseIdx hc
  cases control with
  | starting n =>
    have hn : n = 0 := by simpa using h.controls _ (List.mem_of_getElem? hcontrol)
    injection hstep with hstep
    rw [← hstep, hn]
    exact h.of_controls rfl rfl (hset _ (by simp))
  | spawning i n =>
    have hn : i = 0 ∧ n = 0 := by simpa using h.controls _ (List.mem_of_getElem? hcontrol)
    rw [hn.1, hn.2] at hstep
    injection hstep with hstep
    rw [← hstep]
    exact h.of_controls rfl rfl (fun c hc => Or.inl (herase c hc))
  | stopping =>
    injection hstep with hstep
    rw [← hstep]
    exact h.of_controls rfl rfl (hset _ (by simp))
  | notifying =>
    injection hstep with hstep
    rw [← hstep]
    exact h.of_controls rfl rfl (hset _ (by simp))
  | joining =>
    dsimp only [stepControl] at hstep
    split at hstep
    . injection hstep with hstep
      rw [← hstep]
      exact h.of_controls rfl rfl (fun c hc => Or.inl (herase c hc))
    . contradiction

variable [DecidableEq ι] [DecidableEq τ]

theorem not_stranded_of_unbounded {as : List (Label τ ι)} {n : Nat}
    (h : run (create 0) as = some s) : ¬ Stranded n s := by
  intro ⟨_, hwaiting⟩
  have hpos := (inv_run h).bounded hwaiting
  rw [maxQueueSize_of_run (pool_run h)] at hpos
  contradiction

theorem threadless_control {k : Nat} (h : Threadless p) (hstep : p.step (.control k) = some p')
    : Threadless p' := by
  dsimp only [ThreadPool.step] at hstep
  split at hstep
  . next control hcontrol => exact threadless_stepControl h hcontrol hstep
  . contradiction

theorem threadless_stop (h : Threadless p) (hstep : p.step .stop = some p') : Threadless p' := by
  dsimp only [ThreadPool.step] at hstep
  split at hstep
  . injection hstep with hstep
    rw [← hstep]
    refine h.of_controls rfl rfl ?_
    intro c hc
    rw [List.mem_append, List.mem_singleton] at hc
    exact hc.imp_right (fun heq => by simp [heq])
  . injection hstep with hstep
    rw [← hstep]
    exact h

theorem threadless_step {label : ThreadPool.Label τ ι} (h : Threadless p)
    (hlabel : ∀ n, label ≠ .start n) (hstep : p.step label = some p') : Threadless p' := by
  have hthreads : ∀ i : Nat, p.threads[i]? = none := by
    intro i
    rw [h.threads]
    rfl
  cases stepped_of_step hstep with
  | setTraceContext hcall => exact h.of_controls rfl rfl (fun c hc => Or.inl hc)
  | run hcall =>
    unfold callRun
    rw [h.threads]
    exact h
  | push hcall hfull =>
    rw [h.calls] at hcall
    contradiction
  | waitNotFull hcall =>
    rw [h.calls] at hcall
    contradiction
  | wakeNotFull hcall =>
    rw [h.calls] at hcall
    contradiction
  | iterate hworker | take hworker hqueue | takeNothing hworker | waitNotEmpty hworker
  | wakeNotEmpty hworker | execute hworker | skip hworker | endTask hworker hcall =>
    rw [hthreads] at hworker
    contradiction
  | spawn => exact threadless_control h hstep
  | control => exact threadless_control h hstep
  | stop => exact threadless_stop h hstep
  | start => exact absurd rfl (hlabel _)

theorem threadless_start {maxQueueSize : Nat}
    (h : run (create maxQueueSize) [.pool (.start 0)] = some s) : Threadless s.pool := by
  injection h with h
  rw [← h]
  constructor
  . rfl
  . intro t
    rfl
  . intro c hc
    exact Or.inl (List.mem_singleton.mp hc)

theorem not_stranded_of_no_threads {maxQueueSize : Nat} {as : List (Label τ ι)} {n : Nat}
    (h : run (create maxQueueSize) (.pool (.start 0) :: as) = some s)
    (hstart : as.countP Label.isStart = 0) : ¬ Stranded n s := by
  rintro ⟨_, t, hwaiting⟩
  have hsplit := h
  rw [run, Machine.run_cons_eq_some] at hsplit
  obtain ⟨m, hm, hrun⟩ := hsplit
  have hrun' := Machine.run_simulates Label.toPool Monitor.pool (fun _ _ _ => pool_step) hrun
  have hthreadless : Threadless s.pool := by
    apply Machine.run_invariant_of (L := fun label => ∀ n, label ≠ .start n) _ _ _ hrun'
    . intro p label p' hlabel hp hstep
      exact threadless_step hp hlabel hstep
    . intro label hlabel
      exact toPool_start hstart hlabel
    . apply threadless_start
      rw [run, Machine.run_cons_eq_some]
      exact ⟨m, hm, rfl⟩
  obtain ⟨context, task, hcall⟩ := ((inv_run h).caller t).waiting hwaiting
  rw [hthreadless.calls] at hcall
  contradiction

-- What is promised for one `Start` and at most one `Stop`
def StopNeverStrands (τ : Type u) (ι : Type v) [DecidableEq ι] [DecidableEq τ]
    (maxQueueSize numThreads : Nat) : Prop :=
  ∀ (as : List (Label τ ι)) (s : Monitor τ ι),
    run (create maxQueueSize) (.pool (.start numThreads) :: as) = some s →
    as.countP Label.isStart = 0 → as.countP Label.isStop ≤ 1 → ¬ Stranded numThreads s

theorem stopNeverStrands_iff (t : ι) (task : τ) (maxQueueSize numThreads : Nat)
    : StopNeverStrands τ ι maxQueueSize numThreads ↔ maxQueueSize = 0 ∨ numThreads = 0 := by
  constructor
  . intro h
    apply Classical.byContradiction
    intro hne
    rw [not_or] at hne
    have ⟨s, hrun, hstranded⟩ :=
      exists_stranded (Nat.pos_of_ne_zero hne.1) (Nat.pos_of_ne_zero hne.2) t task
    apply h _ s hrun _ _ hstranded
    . rw [countP_strandingLabels] <;> simp [Label.isStart]
    . rw [countP_strandingLabels] <;> simp [Label.isStop]
  . intro h as s hrun hstart _
    cases h with
    | inl hzero =>
      rw [hzero] at hrun
      exact not_stranded_of_unbounded hrun
    | inr hzero =>
      rw [hzero] at hrun ⊢
      exact not_stranded_of_no_threads hrun hstart

-- The worker has not taken the task that fills the queue when `Stop` clears `running_`.
theorem not_stopNeverStrands : ¬ StopNeverStrands Nat Unit 1 1 := by
  intro h
  refine h [.pool (.control 0), .pool (.control 0), .pool (.control 0),
    .pool (.run (.other ()) (0, 0) (some 1)), .push (.other ()) (0, 0) (some 1) none,
    .pool (.run (.other ()) (0, 0) (some 2)), .pool (.waitNotFull (.other ())), .pool .stop,
    .pool (.control 0), .pool (.iterate 0), .notifyAll 0, .pool (.control 0)] _ rfl rfl (by decide) ?_
  exact ⟨rfl, .other (), by decide⟩

end Monitor
end ThreadPool
end Claire
