import ClaireCommon.Events.Impl.Reactor
import ClaireCommon.Events.Lemmas.PostedTasks
import ClaireCommon.Events.Lemmas.TimeoutQueueRuns

namespace Claire

universe u v w

namespace Reactor

variable {κ : Type u} {υ : Type v} {ι : Type w}

namespace Label

def timerTask? : EventLoop.Label (Task υ) ι → Option TimerTask
  | .post _ _ (.timer timerTask) | .beginTask _ (.timer timerTask) => some timerTask
  | _ => none

def added? : Label κ υ ι → Option (ι × Int × Int × TimeoutQueue.Label κ)
  | add t id expiration callback clock => some (t, id, clock, .add id expiration callback)
  | addRepeating t id now interval callback clock =>
    some (t, id, clock, .addRepeating id now interval callback)
  | _ => none

def posted? : Label κ υ ι → Option (Task υ)
  | loop (.push _ _ posted) => some posted
  | _ => none

def executed? : Label κ υ ι → Option (Task υ)
  | .loop (.beginTask _ executed) => some executed
  | .task _ executed _ => some (.timer executed)
  | _ => none

theorem handedOut_of_added {a : Label κ υ ι} {t : ι} {id clock : Int} {label : TimeoutQueue.Label κ}
    (ha : a.added? = some (t, id, clock, label)) : label.handedOut = some id := by
  cases a with
  | add t id expiration callback clock =>
    simp only [added?, Option.some.injEq, Prod.mk.injEq] at ha
    rw [← ha.2.2.2, ← ha.2.1]
    rfl
  | addRepeating t id now interval callback clock =>
    simp only [added?, Option.some.injEq, Prod.mk.injEq] at ha
    rw [← ha.2.2.2, ← ha.2.1]
    rfl
  | _ => contradiction

end Label

def tasks (r : Reactor κ υ ι) : List (Task υ) := r.loop.queued.map Prod.snd

def posted (as : List (Label κ υ ι)) : List (Task υ) := as.filterMap Label.posted?

def executed (as : List (Label κ υ ι)) : List (Task υ) := as.filterMap Label.executed?

@[simp]
theorem posted_append (as bs : List (Label κ υ ι)) : posted (as ++ bs) = posted as ++ posted bs :=
  List.filterMap_append

@[simp]
theorem executed_append (as bs : List (Label κ υ ι))
    : executed (as ++ bs) = executed as ++ executed bs :=
  List.filterMap_append

theorem executed_singleton (a : Label κ υ ι)
    : executed [a] = [] ∨ ∃ task, executed [a] = [task] := by
  unfold executed
  cases hexecuted : a.executed? with
  | none => simp [hexecuted]
  | some task => simp [hexecuted]

variable {r r' : Reactor κ υ ι}

theorem tasks_of_eq (h : r'.loop = r.loop) : r'.tasks = r.tasks := by
  unfold tasks
  rw [h]

theorem stepQueue_eq_some {label : TimeoutQueue.Label κ} (h : r.stepQueue label = some r')
    : r.queue.step label = some r'.queue ∧ r'.loop = r.loop := by
  unfold stepQueue at h
  split at h
  . next queue hqueue =>
    rw [← Option.some.inj h]
    exact ⟨hqueue, rfl⟩
  . contradiction

variable [DecidableEq υ] [DecidableEq ι]

theorem stepLoop_eq_some {label : EventLoop.Label (Task υ) ι} (h : r.stepLoop label = some r')
    : r.loop.step label = some r'.loop ∧ r'.queue = r.queue := by
  unfold stepLoop at h
  split at h
  . next loop hloop =>
    rw [← Option.some.inj h]
    exact ⟨hloop, rfl⟩
  . contradiction

theorem runTask_eq_some {t : ι} {task : TimerTask} {clock : Int}
    (h : r.runTask t task clock = some r')
    : (t = r.loop.tid ∧ r.queue.step (task.effect clock) = some r'.queue ∧ r'.loop = r.loop)
        ∨ (t ≠ r.loop.tid ∧ r'.queue = r.queue
            ∧ r.loop.step (.post t (r.loop.getTraceContext t) (.timer task)) = some r'.loop) := by
  unfold runTask at h
  split at h
  . next hthread =>
    have htid : r.loop.tid = t := of_decide_eq_true hthread
    obtain ⟨hqueue, hloop⟩ := stepQueue_eq_some h
    exact Or.inl ⟨htid.symm, hqueue, hloop⟩
  . next hthread =>
    obtain ⟨hloop, hqueue⟩ := stepLoop_eq_some h
    apply Or.inr
    constructor
    . intro htid
      exact hthread (decide_eq_true htid.symm)
    . exact ⟨hqueue, hloop⟩

theorem addEvent_eq_some {t : ι} {id : Int} {label : TimeoutQueue.Label κ} {clock : Int}
    (h : r.addEvent t id label clock = some r')
    : ∃ queue, r.queue.step label = some queue
        ∧ ((t = r.loop.tid ∧ queue.step (.addInLoop id clock) = some r'.queue ∧ r'.loop = r.loop)
          ∨ (t ≠ r.loop.tid ∧ r'.queue = queue
            ∧ r.loop.step (.post t (r.loop.getTraceContext t) (.timer (.addInLoop id)))
                = some r'.loop)) := by
  unfold addEvent at h
  split at h
  . next m hm =>
    have ⟨hqueue, hloop⟩ := stepQueue_eq_some hm
    exists m.queue
    constructor
    . exact hqueue
    . rw [← hloop]
      exact runTask_eq_some h
  . contradiction

theorem step_loop {label : EventLoop.Label (Task υ) ι} (h : step r (.loop label) = some r')
    : r.loop.step label = some r'.loop ∧ r'.queue = r.queue ∧ Label.timerTask? label = none := by
  cases label with
  | setTraceContext t context =>
    dsimp only [step] at h
    split at h
    . exact ⟨(stepLoop_eq_some h).1, (stepLoop_eq_some h).2, rfl⟩
    . contradiction
  | post t context task =>
    cases task with
    | timer task => contradiction
    | user task =>
      dsimp only [step] at h
      split at h
      . exact ⟨(stepLoop_eq_some h).1, (stepLoop_eq_some h).2, rfl⟩
      . contradiction
  | quit t =>
    dsimp only [step] at h
    split at h
    . exact ⟨(stepLoop_eq_some h).1, (stepLoop_eq_some h).2, rfl⟩
    . contradiction
  | endEvent =>
    dsimp only [step] at h
    split at h
    . exact ⟨(stepLoop_eq_some h).1, (stepLoop_eq_some h).2, rfl⟩
    . contradiction
  | beginTask context task =>
    cases task with
    | timer task => contradiction
    | user task => exact ⟨(stepLoop_eq_some h).1, (stepLoop_eq_some h).2, rfl⟩
  | _ => exact ⟨(stepLoop_eq_some h).1, (stepLoop_eq_some h).2, rfl⟩

theorem step_queue {label : TimeoutQueue.Label κ} (h : step r (.queue label) = some r')
    : r.queue.step label = some r'.queue ∧ r'.loop = r.loop
        ∧ label.handedOut = none ∧ ∀ id clock, label ≠ .addInLoop id clock := by
  cases label with
  | expire => exact ⟨(stepQueue_eq_some h).1, (stepQueue_eq_some h).2, rfl, by simp⟩
  | runStart now =>
    dsimp only [step] at h
    split at h
    . exact ⟨(stepQueue_eq_some h).1, (stepQueue_eq_some h).2, rfl, by simp⟩
    . contradiction
  | execute id =>
    dsimp only [step] at h
    split at h
    . exact ⟨(stepQueue_eq_some h).1, (stepQueue_eq_some h).2, rfl, by simp⟩
    . contradiction
  | runEnd clock =>
    dsimp only [step] at h
    split at h
    . exact ⟨(stepQueue_eq_some h).1, (stepQueue_eq_some h).2, rfl, by simp⟩
    . contradiction
  | _ => contradiction

theorem step_added {a : Label κ υ ι} {t : ι} {id clock : Int} {label : TimeoutQueue.Label κ}
    (ha : a.added? = some (t, id, clock, label)) (h : step r a = some r')
    : ∃ queue, r.queue.step label = some queue
        ∧ ((t = r.loop.tid ∧ queue.step (.addInLoop id clock) = some r'.queue ∧ r'.loop = r.loop)
          ∨ (t ≠ r.loop.tid ∧ r'.queue = queue
            ∧ r.loop.step (.post t (r.loop.getTraceContext t) (.timer (.addInLoop id)))
                = some r'.loop)) := by
  cases a with
  | add t id expiration callback clock =>
    simp only [Label.added?, Option.some.injEq, Prod.mk.injEq] at ha
    rw [← ha.1, ← ha.2.1, ← ha.2.2.1, ← ha.2.2.2]
    dsimp only [step] at h
    split at h
    . exact addEvent_eq_some h
    . contradiction
  | addRepeating t id now interval callback clock =>
    simp only [Label.added?, Option.some.injEq, Prod.mk.injEq] at ha
    rw [← ha.1, ← ha.2.1, ← ha.2.2.1, ← ha.2.2.2]
    dsimp only [step] at h
    split at h
    . exact addEvent_eq_some h
    . contradiction
  | _ => contradiction

theorem step_cancel {t : ι} {id clock : Int} (h : step r (.cancel t id clock) = some r')
    : (t = r.loop.tid ∧ r.queue.step (.cancelInLoop id) = some r'.queue ∧ r'.loop = r.loop)
        ∨ (t ≠ r.loop.tid ∧ r'.queue = r.queue
            ∧ r.loop.step (.post t (r.loop.getTraceContext t) (.timer (.cancelInLoop id)))
                = some r'.loop) := by
  dsimp only [step] at h
  split at h
  . exact runTask_eq_some h
  . contradiction

theorem step_task {context : TraceContext} {task : TimerTask} {clock : Int}
    (h : step r (.task context task clock) = some r')
    : ∃ loop, r.loop.step (.beginTask context (.timer task)) = some loop
        ∧ r.queue.step (task.effect clock) = some r'.queue
        ∧ loop.step .endTask = some r'.loop := by
  dsimp only [step] at h
  split at h
  . next m hm =>
    split at h
    . next m' hm' =>
      have ⟨hbegin, hqueue⟩ := stepLoop_eq_some hm
      have ⟨heffect, hloop⟩ := stepQueue_eq_some hm'
      have ⟨hend, hqueue'⟩ := stepLoop_eq_some h
      exists m.loop
      constructor
      . exact hbegin
      . rw [hqueue', ← hqueue, ← hloop]
        exact ⟨heffect, hend⟩
    . contradiction
  . contradiction

theorem loop_of_step {a : Label κ υ ι} (h : step r a = some r')
    : ∃ labels, r.loop.run labels = some r'.loop := by
  have hstill : r'.loop = r.loop → ∃ labels, r.loop.run labels = some r'.loop := by
    intro heq
    rw [heq]
    exact ⟨[], rfl⟩
  have hone : ∀ label, r.loop.step label = some r'.loop →
      ∃ labels, r.loop.run labels = some r'.loop := by
    intro label hlabel
    exists [label]
    rw [EventLoop.run, Machine.run_cons_eq_some]
    exact ⟨_, hlabel, rfl⟩
  have hadded : ∀ p, a.added? = some p → ∃ labels, r.loop.run labels = some r'.loop := by
    intro p ha
    obtain ⟨queue, _, hcases⟩ := step_added ha h
    cases hcases with
    | inl hnow => exact hstill hnow.2.2
    | inr hpost => exact hone _ hpost.2.2
  cases a with
  | loop label => exact hone label (step_loop h).1
  | queue label => exact hstill (step_queue h).2.1
  | add t id expiration callback clock => exact hadded _ rfl
  | addRepeating t id now interval callback clock => exact hadded _ rfl
  | cancel t id clock =>
    cases step_cancel h with
    | inl hnow => exact hstill hnow.2.2
    | inr hpost => exact hone _ hpost.2.2
  | task context task clock =>
    obtain ⟨loop, hbegin, _, hend⟩ := step_task h
    exists [.beginTask context (.timer task), .endTask]
    rw [EventLoop.run, Machine.run_cons_eq_some]
    exists loop
    rw [Machine.run_cons_eq_some]
    exact ⟨hbegin, _, hend, rfl⟩

theorem tid_of_step {a : Label κ υ ι} (h : step r a = some r') : r'.loop.tid = r.loop.tid := by
  have ⟨labels, hrun⟩ := loop_of_step h
  apply Machine.run_invariant (P := fun l : EventLoop (Task υ) ι => l.tid = r.loop.tid) _ rfl hrun
  intro l b l' htid hstep
  rw [EventLoop.tid_of_step hstep, htid]

theorem loopInv_step {a : Label κ υ ι} (hinv : r.loop.Inv) (h : step r a = some r')
    : r'.loop.Inv := by
  have ⟨labels, hrun⟩ := loop_of_step h
  apply Machine.run_invariant _ hinv hrun
  intro l b l' hinv hstep
  exact EventLoop.inv_step hinv hstep

theorem queue_of_step {a : Label κ υ ι} (h : step r a = some r')
    : ∃ labels, r.queue.run labels = some r'.queue := by
  have hstill : r'.queue = r.queue → ∃ labels, r.queue.run labels = some r'.queue := by
    intro heq
    rw [heq]
    exact ⟨[], rfl⟩
  have hone : ∀ label, r.queue.step label = some r'.queue →
      ∃ labels, r.queue.run labels = some r'.queue := by
    intro label hlabel
    exists [label]
    rw [TimeoutQueue.run, Machine.run_cons_eq_some]
    exact ⟨_, hlabel, rfl⟩
  have hadded : ∀ p, a.added? = some p → ∃ labels, r.queue.run labels = some r'.queue := by
    rintro ⟨t, id, clock, label⟩ ha
    obtain ⟨queue, hqueue, hcases⟩ := step_added ha h
    cases hcases with
    | inl hnow =>
      exists [label, .addInLoop id clock]
      rw [TimeoutQueue.run, Machine.run_cons_eq_some]
      exists queue
      rw [Machine.run_cons_eq_some]
      exact ⟨hqueue, _, hnow.2.1, rfl⟩
    | inr hpost =>
      rw [← hpost.2.1] at hqueue
      exact hone _ hqueue
  cases a with
  | loop label => exact hstill (step_loop h).2.1
  | queue label => exact hone label (step_queue h).1
  | add t id expiration callback clock => exact hadded _ rfl
  | addRepeating t id now interval callback clock => exact hadded _ rfl
  | cancel t id clock =>
    cases step_cancel h with
    | inl hnow => exact hone _ hnow.2.1
    | inr hpost => exact hstill hpost.2.1
  | task context task clock =>
    obtain ⟨loop, _, heffect, _⟩ := step_task h
    exact hone _ heffect

theorem next_le_of_step {a : Label κ υ ι} (h : step r a = some r')
    : r.queue.next ≤ r'.queue.next := by
  have ⟨labels, hrun⟩ := queue_of_step h
  exact TimeoutQueue.next_le_of_run hrun

theorem absent_step {a : Label κ υ ι} {id : Int} (habsent : r.queue.Absent id)
    (h : step r a = some r') : r'.queue.Absent id := by
  have ⟨labels, hrun⟩ := queue_of_step h
  apply Machine.run_invariant (P := fun q : TimeoutQueue κ => q.Absent id) _ habsent hrun
  intro q b q' habsent hstep
  exact TimeoutQueue.absent_step habsent hstep

theorem gone_step {a : Label κ υ ι} {id : Int} (hgone : r.queue.Gone id) (h : step r a = some r')
    : r'.queue.Gone id := by
  have ⟨labels, hrun⟩ := queue_of_step h
  apply Machine.run_invariant (P := fun q : TimeoutQueue κ => q.Gone id) _ hgone hrun
  intro q b q' hgone hstep
  exact TimeoutQueue.gone_step hgone hstep

theorem tasks_of_loop_step {label : EventLoop.Label (Task υ) ι} (hinv : r.loop.Inv)
    (h : r.loop.step label = some r'.loop)
    : (EventLoop.executed [label]).map Prod.snd ++ r'.tasks
        =
      r.tasks ++ (EventLoop.posted [label]).map Prod.snd := by
  unfold tasks
  rw [← List.map_append, EventLoop.queued_of_step hinv h, List.map_append]

theorem tasks_of_post {t : ι} {context : TraceContext} {task : Task υ} (hinv : r.loop.Inv)
    (h : r.loop.step (.post t context task) = some r'.loop) : r'.tasks = r.tasks := by
  have htasks := tasks_of_loop_step hinv h
  rw [show (EventLoop.posted [.post t context task]).map Prod.snd = [] from rfl, List.append_nil]
    at htasks
  exact htasks

theorem tasks_of_step {a : Label κ υ ι} (hinv : r.loop.Inv) (h : step r a = some r')
    : executed [a] ++ r'.tasks = r.tasks ++ posted [a] := by
  have hadded : ∀ p, a.added? = some p → r'.tasks = r.tasks := by
    intro (t, id, clock, label) ha
    have ⟨queue, _, hcases⟩ := step_added ha h
    cases hcases with
    | inl hnow => exact tasks_of_eq hnow.2.2
    | inr hpost => exact tasks_of_post hinv hpost.2.2
  cases a with
  | loop label =>
    have htasks := tasks_of_loop_step hinv (step_loop h).1
    cases label with
    | push t context task => exact htasks
    | beginTask context task => exact htasks
    | _ => exact htasks
  | queue label =>
    rw [tasks_of_eq (step_queue h).2.1]
    exact (List.append_nil _).symm
  | add t id expiration callback clock =>
    rw [hadded _ rfl]
    exact (List.append_nil _).symm
  | addRepeating t id now interval callback clock =>
    rw [hadded _ rfl]
    exact (List.append_nil _).symm
  | cancel t id clock =>
    have htasks : r'.tasks = r.tasks := by
      cases step_cancel h with
      | inl hnow => exact tasks_of_eq hnow.2.2
      | inr hpost => exact tasks_of_post hinv hpost.2.2
    rw [htasks]
    exact (List.append_nil _).symm
  | task context task clock =>
    have ⟨loop, hbegin, _, hend⟩ := step_task h
    have hbegun := EventLoop.queued_of_beginTask hinv hbegin
    have hended := EventLoop.queued_of_step (EventLoop.inv_step hinv hbegin) hend
    rw [show EventLoop.posted [.endTask] = ([] : List (EventLoop.Entry (Task υ))) from rfl,
      List.append_nil] at hended
    have htasks : r.tasks = .timer task :: r'.tasks := by
      unfold tasks
      rw [hbegun, ← hended]
      rfl
    rw [htasks]
    exact (List.append_nil _).symm

end Reactor
end Claire
