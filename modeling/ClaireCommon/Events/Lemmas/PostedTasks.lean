import ClaireCommon.Events.Lemmas.EventLoop

/-!
This module contains the conservation of the posted tasks: what has been executed, the rest of the
batch that `RunPendingTasks` has swapped out and `pending_tasks_` make up the posts in the order of
their critical sections.
-/

namespace Claire

universe u v

namespace EventLoop

variable {τ : Type u} {ι : Type v}

namespace Label

def posted? : Label τ ι → Option (Entry τ)
  | push _ context task => some (context, task)
  | _ => none

def executed? : Label τ ι → Option (Entry τ)
  | beginTask context task => some (context, task)
  | _ => none

def caller? : Label τ ι → Option ι
  | post t _ _ | push t _ _ | wakeup t | quit t => some t
  | _ => none

end Label

def posted (as : List (Label τ ι)) : List (Entry τ) := as.filterMap Label.posted?

def executed (as : List (Label τ ι)) : List (Entry τ) := as.filterMap Label.executed?

def batch (l : EventLoop τ ι) : List (Entry τ) :=
  match l.pc with
  | .runningTasks rest | .inTask rest => rest
  | _ => []

def queued (l : EventLoop τ ι) : List (Entry τ) := l.batch ++ l.pendingTasks

@[simp]
theorem posted_append (as bs : List (Label τ ι)) : posted (as ++ bs) = posted as ++ posted bs :=
  List.filterMap_append

@[simp]
theorem executed_append (as bs : List (Label τ ι))
    : executed (as ++ bs) = executed as ++ executed bs :=
  List.filterMap_append

theorem batch_eq_nil {l : EventLoop τ ι} (h : ∀ rest, l.pc ≠ .runningTasks rest ∧ l.pc ≠ .inTask rest)
    : l.batch = [] := by
  unfold batch
  split
  . next rest hpc => exact absurd hpc (h rest).1
  . next rest hpc => exact absurd hpc (h rest).2
  . rfl

theorem nextIteration_batch (l : EventLoop τ ι) : l.nextIteration.batch = [] := by
  apply batch_eq_nil
  intro rest
  cases nextIteration_pc l with
  | inl hpc => simp [hpc]
  | inr hpc => simp [hpc]

variable [DecidableEq τ] [DecidableEq ι] {l l' : EventLoop τ ι}

theorem batch_of_step {a : Label τ ι} (hswap : a ≠ .swap) (h : step l a = some l')
    : executed [a] ++ l'.batch = l.batch := by
  cases a with
  | setTraceContext t context =>
    rw [(step_setTraceContext h).2]
    rfl
  | post t context task =>
    rw [(step_post h).2.2]
    rfl
  | push t context task =>
    rw [(step_push h).2]
    rfl
  | wakeup t =>
    cases step_wakeup h with
    | inl hpushed =>
      rw [hpushed.2, wakeupAfterPush_eq]
      rfl
    | inr hquitting =>
      rw [hquitting.2, wakeup_eq]
      rfl
  | quit t =>
    rw [(step_quit h).2, quit_eq]
    rfl
  | loop =>
    obtain ⟨hpc, _, heq⟩ := step_loop h
    rw [heq, nextIteration_batch]
    simp [executed, Label.executed?, batch, hpc]
  | poll active =>
    obtain ⟨hpc, heq⟩ := step_poll h
    simp [executed, Label.executed?, heq, batch, hpc]
  | beginEvent =>
    obtain ⟨channel, rest, hpc, heq⟩ := step_beginEvent h
    simp [executed, Label.executed?, heq, batch, hpc, EventLoop.beginEvent]
  | onWakeup =>
    obtain ⟨_, _, heq⟩ := step_onWakeup h
    rw [heq]
    rfl
  | endEvent =>
    obtain ⟨rest, hpc, _, heq⟩ := step_endEvent h
    simp [executed, Label.executed?, heq, batch, hpc]
  | endDispatch =>
    obtain ⟨hpc, heq⟩ := step_endDispatch h
    simp [executed, Label.executed?, heq, batch, hpc, EventLoop.endDispatch]
  | swap => contradiction
  | beginTask context task =>
    obtain ⟨rest, hpc, heq⟩ := step_beginTask h
    simp [executed, Label.executed?, heq, batch, hpc, EventLoop.beginTask]
  | endTask =>
    obtain ⟨rest, hpc, _, heq⟩ := step_endTask h
    simp [executed, Label.executed?, heq, batch, hpc, EventLoop.endTask]
  | iterate =>
    obtain ⟨hpc, heq⟩ := step_iterate h
    rw [heq, nextIteration_batch]
    simp [executed, Label.executed?, batch, hpc]

theorem pendingTasks_of_step {a : Label τ ι} (hinv : Inv l) (hswap : a ≠ .swap)
    (h : step l a = some l') : l'.pendingTasks = l.pendingTasks ++ posted [a] := by
  cases a with
  | setTraceContext t context =>
    rw [(step_setTraceContext h).2]
    exact (List.append_nil _).symm
  | post t context task =>
    rw [(step_post h).2.2]
    exact (List.append_nil _).symm
  | push t context task =>
    have ⟨hcall, heq⟩ := step_push h
    have hpush : (l.push t task).pendingTasks = l.pendingTasks ++ [(l.contexts t, task)] := rfl
    rw [heq, hpush, hinv.context hcall]
    rfl
  | wakeup t =>
    cases step_wakeup h with
    | inl hpushed =>
      rw [hpushed.2, wakeupAfterPush_eq]
      exact (List.append_nil _).symm
    | inr hquitting =>
      rw [hquitting.2, wakeup_eq]
      exact (List.append_nil _).symm
  | quit t =>
    rw [(step_quit h).2, quit_eq]
    exact (List.append_nil _).symm
  | loop =>
    have ⟨_, _, heq⟩ := step_loop h
    rw [heq, nextIteration_eq]
    exact (List.append_nil _).symm
  | poll active =>
    rw [(step_poll h).2]
    exact (List.append_nil _).symm
  | beginEvent =>
    have ⟨_, _, _, heq⟩ := step_beginEvent h
    rw [heq]
    exact (List.append_nil _).symm
  | onWakeup =>
    have ⟨_, _, heq⟩ := step_onWakeup h
    rw [heq]
    exact (List.append_nil _).symm
  | endEvent =>
    have ⟨_, _, _, heq⟩ := step_endEvent h
    rw [heq]
    exact (List.append_nil _).symm
  | endDispatch =>
    rw [(step_endDispatch h).2]
    exact (List.append_nil _).symm
  | swap => contradiction
  | beginTask context task =>
    have ⟨_, _, heq⟩ := step_beginTask h
    rw [heq]
    exact (List.append_nil _).symm
  | endTask =>
    have ⟨_, _, _, heq⟩ := step_endTask h
    rw [heq]
    exact (List.append_nil _).symm
  | iterate =>
    have ⟨_, heq⟩ := step_iterate h
    rw [heq, nextIteration_eq]
    exact (List.append_nil _).symm

theorem queued_of_swap (h : step l .swap = some l')
    : l.batch = [] ∧ l'.batch = l.pendingTasks ∧ l'.pendingTasks = [] := by
  have ⟨hpc, heq⟩ := step_swap h
  rw [heq]
  constructor
  . simp [batch, hpc]
  . exact ⟨rfl, rfl⟩

theorem queued_of_step {a : Label τ ι} (hinv : Inv l) (h : step l a = some l')
    : executed [a] ++ l'.queued = l.queued ++ posted [a] := by
  unfold queued
  by_cases hswap : a = .swap
  . rw [hswap] at h ⊢
    have ⟨hbatch, hbatch', hpending'⟩ := queued_of_swap h
    rw [hbatch, hbatch', hpending']
    rfl
  . rw [← List.append_assoc, batch_of_step hswap h, pendingTasks_of_step hinv hswap h,
      List.append_assoc]

theorem queued_of_run {tid : ι} {as : List (Label τ ι)} (h : run (init tid) as = some l)
    : executed as ++ l.queued = posted as := by
  apply Machine.run_induction (P := fun as l => executed as ++ l.queued = posted as) _ _ h
  . rfl
  . intro as l a l' hrun ih hstep
    have hqueued := queued_of_step (inv_run hrun) hstep
    calc executed (as ++ [a]) ++ l'.queued
      _ = executed as ++ (executed [a] ++ l'.queued) := by simp
      _ = executed as ++ l.queued ++ posted [a] := by rw [hqueued, List.append_assoc]
      _ = posted (as ++ [a]) := by rw [ih, posted_append]

theorem batch_of_run {as : List (Label τ ι)} (hswap : .swap ∉ as) (h : run l as = some l')
    : executed as ++ l'.batch = l.batch := by
  induction as generalizing l with
  | nil =>
    rw [run, Machine.run_nil, Option.some.injEq] at h
    rw [h]
    rfl
  | cons a as ih =>
    rw [run, Machine.run_cons_eq_some] at h
    have ⟨m, hstep, hrun⟩ := h
    have hne : a ≠ .swap := by
      intro heq
      apply hswap
      simp [heq]
    have hbatch := ih (fun hmem => hswap (List.mem_cons_of_mem _ hmem)) hrun
    rw [← batch_of_step hne hstep, ← hbatch, ← List.append_assoc, ← executed_append]
    rfl

theorem executed_of_batch {tid : ι} {as bs : List (Label τ ι)} (hswap : .swap ∉ bs)
    (h : run (init tid) (as ++ .swap :: bs) = some l)
    : executed (as ++ .swap :: bs) <+: posted as := by
  rw [run, Machine.run_append_cons_eq_some] at h
  have ⟨m, m', hm, hstep, hrun⟩ := h
  have ⟨hbatch, hbatch', _⟩ := queued_of_swap hstep
  have hposted := queued_of_run hm
  have hrest := batch_of_run hswap hrun
  rw [queued, hbatch, List.nil_append, ← hbatch', ← hrest] at hposted
  exists l.batch
  rw [← hposted, executed_append, List.append_assoc]
  rfl

theorem calls_of_step {a : Label τ ι} {t : ι} (hcaller : a.caller? ≠ some t) (h : step l a = some l')
    : l'.calls t = l.calls t := by
  cases a with
  | setTraceContext t' context => rw [(step_setTraceContext h).2]; rfl
  | post t' context task =>
    rw [(step_post h).2.2]
    apply Function.update_of_ne
    intro htt
    exact hcaller (congrArg some htt.symm)
  | push t' context task =>
    rw [(step_push h).2]
    apply Function.update_of_ne
    intro htt
    exact hcaller (congrArg some htt.symm)
  | wakeup t' =>
    rw [calls_of_wakeup h]
    apply Function.update_of_ne
    intro htt
    exact hcaller (congrArg some htt.symm)
  | quit t' =>
    rw [(step_quit h).2]
    cases quit_calls l t' with
    | inl hcalls =>
      rw [hcalls.1]
      apply Function.update_of_ne
      intro htt
      exact hcaller (congrArg some htt.symm)
    | inr hcalls => rw [hcalls]
  | loop => rw [(step_loop h).2.2, nextIteration_eq]
  | poll active => rw [(step_poll h).2]
  | beginEvent =>
    have ⟨_, _, _, heq⟩ := step_beginEvent h
    rw [heq]
    rfl
  | onWakeup =>
    have ⟨_, _, heq⟩ := step_onWakeup h
    rw [heq]
    rfl
  | endEvent =>
    have ⟨_, _, _, heq⟩ := step_endEvent h
    rw [heq]
  | endDispatch =>
    rw [(step_endDispatch h).2]
    rfl
  | swap =>
    rw [(step_swap h).2]
    rfl
  | beginTask context task =>
    have ⟨_, _, heq⟩ := step_beginTask h
    rw [heq]
    rfl
  | endTask =>
    have ⟨_, _, _, heq⟩ := step_endTask h
    rw [heq]
    rfl
  | iterate => rw [(step_iterate h).2, nextIteration_eq]

theorem calls_of_call {a : Label τ ι} {t : ι} {context : TraceContext} {task : τ}
    (hcaller : a.caller? = some t) (h : step l a = some l')
    (hcall : l'.calls t = .posting context task)
    : a = .post t context task ∧ l.getTraceContext t = context := by
  cases a with
  | post t' context' task' =>
    have ⟨_, hcontext, heq⟩ := step_post h
    have htt : t' = t := Option.some.inj hcaller
    rw [htt] at hcontext heq ⊢
    rw [heq, post_calls_self] at hcall
    injection hcall with hcontext' htask
    rw [hcontext', htask]
    rw [hcontext'] at hcontext
    exact ⟨rfl, hcontext⟩
  | push t' context' task' =>
    have htt : t' = t := Option.some.inj hcaller
    rw [(step_push h).2, htt, push_calls_self] at hcall
    contradiction
  | wakeup t' =>
    have htt : t' = t := Option.some.inj hcaller
    rw [calls_of_wakeup h, htt, Function.update_self] at hcall
    contradiction
  | quit t' =>
    have htt : t' = t := Option.some.inj hcaller
    have ⟨hmay, heq⟩ := step_quit h
    rw [heq] at hcall
    cases quit_calls l t' with
    | inl hcalls =>
      rw [hcalls.1, htt, Function.update_self] at hcall
      contradiction
    | inr hcalls =>
      rw [hcalls, ← htt, mayCall_calls hmay] at hcall
      contradiction
  | _ => contradiction

def PostedBy (tid t : ι) (context : TraceContext) (task : τ) (as : List (Label τ ι)) : Prop :=
  ∃ (bs cs : List (Label τ ι)) (m : EventLoop τ ι), as = bs ++ .post t context task :: cs
    ∧ (∀ c ∈ cs, c.caller? ≠ some t) ∧ run (init tid) bs = some m ∧ m.getTraceContext t = context

theorem postedBy_of_run {tid t : ι} {context : TraceContext} {task : τ} {as : List (Label τ ι)}
    (h : run (init tid) as = some l) (hcall : l.calls t = .posting context task)
    : PostedBy tid t context task as := by
  apply Machine.run_induction (P := fun as l =>
    l.calls t = .posting context task → PostedBy tid t context task as) _ _ h hcall
  . intro hcall
    contradiction
  . intro as l a l' hrun ih hstep hcall
    by_cases hcaller : a.caller? = some t
    . have ⟨heq, hcontext⟩ := calls_of_call hcaller hstep hcall
      rw [heq]
      exact ⟨as, [], l, rfl, by simp, hrun, hcontext⟩
    . rw [calls_of_step hcaller hstep] at hcall
      have ⟨bs, cs, m, heq, hcs, hm, hcontext⟩ := ih hcall
      refine ⟨bs, cs ++ [a], m, ?_, ?_, hm, hcontext⟩
      . rw [heq]
        simp
      . intro c hc
        rw [List.mem_append, List.mem_singleton] at hc
        cases hc with
        | inl hc => exact hcs c hc
        | inr hc =>
          rw [hc]
          exact hcaller

def Posting (l : EventLoop τ ι) (task : τ) : Prop := ∃ t context, l.calls t = .posting context task

def Queued (l : EventLoop τ ι) (task : τ) : Prop := ∃ context, (context, task) ∈ l.queued

theorem calls_of_posting {a : Label τ ι} {t : ι} {context : TraceContext} {task : τ}
    (h : step l a = some l') (hcall : l'.calls t = .posting context task)
    : l.calls t = .posting context task ∨ a = .post t context task := by
  by_cases hcaller : a.caller? = some t
  . exact Or.inr (calls_of_call hcaller h hcall).1
  . rw [calls_of_step hcaller h] at hcall
    exact Or.inl hcall

theorem posting_step {a : Label τ ι} {t : ι} {context : TraceContext} {task : τ}
    (h : step l a = some l') (hcall : l.calls t = .posting context task)
    : l'.calls t = .posting context task ∨ a = .push t context task := by
  by_cases hcaller : a.caller? = some t
  . cases a with
    | post t' context' task' =>
      have htt : t' = t := Option.some.inj hcaller
      rw [← htt, mayCall_calls (step_post h).1] at hcall
      contradiction
    | push t' context' task' =>
      have htt : t' = t := Option.some.inj hcaller
      rw [← htt, (step_push h).1] at hcall
      injection hcall with hcontext htask
      apply Or.inr
      rw [htt, hcontext, htask]
    | wakeup t' =>
      have htt : t' = t := Option.some.inj hcaller
      rw [← htt] at hcall
      cases step_wakeup h with
      | inl hpushed =>
        rw [hpushed.1] at hcall
        contradiction
      | inr hquitting =>
        rw [hquitting.1] at hcall
        contradiction
    | quit t' =>
      have htt : t' = t := Option.some.inj hcaller
      rw [← htt, mayCall_calls (step_quit h).1] at hcall
      contradiction
    | _ => contradiction
  . rw [calls_of_step hcaller h]
    exact Or.inl hcall

theorem queued_of_push {t : ι} {context : TraceContext} {task : τ} (hinv : Inv l)
    (h : step l (.push t context task) = some l') : l'.queued = l.queued ++ [(context, task)] :=
  queued_of_step hinv h

theorem queued_of_beginTask {context : TraceContext} {task : τ} (hinv : Inv l)
    (h : step l (.beginTask context task) = some l') : l.queued = (context, task) :: l'.queued := by
  have hqueued := queued_of_step hinv h
  rw [show posted [.beginTask context task] = ([] : List (Entry τ)) from rfl, List.append_nil]
    at hqueued
  exact hqueued.symm

theorem inFlight_step {a : Label τ ι} {task : τ} (hinv : Inv l) (h : step l a = some l')
    (hflight : Posting l task ∨ Queued l task) (hbegin : ∀ context, a ≠ .beginTask context task)
    : Posting l' task ∨ Queued l' task := by
  cases hflight with
  | inl hposting =>
    have ⟨t, context, hcall⟩ := hposting
    cases posting_step h hcall with
    | inl hcall' => exact Or.inl ⟨t, context, hcall'⟩
    | inr hpush =>
      rw [hpush] at h
      apply Or.inr
      exists context
      rw [queued_of_push hinv h]
      simp
  | inr hqueued =>
    have ⟨context, hmem⟩ := hqueued
    have hmem' : (context, task) ∈ executed [a] ++ l'.queued := by
      rw [queued_of_step hinv h]
      exact List.mem_append_left _ hmem
    rw [List.mem_append] at hmem'
    cases hmem' with
    | inl hexecuted =>
      have ⟨a', ha, hsome⟩ := List.mem_filterMap.mp hexecuted
      rw [List.mem_singleton.mp ha] at hsome
      unfold Label.executed? at hsome
      split at hsome
      . next context' task' =>
        injection hsome with heq
        injection heq with hcontext htask
        exact absurd (by rw [hcontext, htask]) (hbegin context)
      . contradiction
    | inr hmem' => exact Or.inr ⟨context, hmem'⟩

structure PostedTasksExecuted (tid : ι) (as : List (Label τ ι)) (l : EventLoop τ ι) : Prop where
  conserved : executed as ++ l.batch ++ l.pendingTasks = posted as
  posted_in_context : ∀ (t : ι) (context : TraceContext) (task : τ) (bs cs : List (Label τ ι)),
    as = bs ++ .push t context task :: cs → PostedBy tid t context task bs
  executed_in_context : ∀ (context : TraceContext) (task : τ) (bs cs : List (Label τ ι)),
    as = bs ++ .beginTask context task :: cs →
    ∃ m, run (init tid) (bs ++ [Label.beginTask context task]) = some m
      ∧ m.getTraceContext tid = context
  executed_before_swap : ∀ bs cs : List (Label τ ι),
    as = bs ++ .swap :: cs → .swap ∉ cs → executed as <+: posted bs

theorem postedTasksExecuted {tid : ι} {as : List (Label τ ι)} (h : run (init tid) as = some l)
    : PostedTasksExecuted tid as l := by
  constructor
  . rw [List.append_assoc]
    exact queued_of_run h
  . intro t context task bs cs heq
    rw [heq, run, Machine.run_append_cons_eq_some] at h
    have ⟨m, m', hm, hstep, _⟩ := h
    exact postedBy_of_run hm (step_push hstep).1
  . intro context task bs cs heq
    rw [heq, run, Machine.run_append_cons_eq_some] at h
    have ⟨m, m', hm, hstep, _⟩ := h
    exists m'
    constructor
    . rw [run, Machine.run_concat_eq_some]
      exact ⟨m, hm, hstep⟩
    . have ⟨rest, _, heq'⟩ := step_beginTask hstep
      rw [heq', ← tid_of_run hm]
      exact Function.update_self m.tid context m.contexts
  . intro bs cs heq hswap
    rw [heq] at h ⊢
    exact executed_of_batch hswap h

theorem postedTasksExecuted_two_threads
    : ∃ l, PostedTasksExecuted 0
        [.setTraceContext 1 (7, 8), .post 1 (7, 8) 'a', .loop, .poll [], .push 1 (7, 8) 'a',
          .endDispatch, .swap, .beginTask (7, 8) 'a', .post 0 (7, 8) 'b', .push 0 (7, 8) 'b',
          .wakeup 1, .wakeup 0, .endTask, .iterate]
        l :=
  ⟨_, postedTasksExecuted (show run (init 0) _ = some _ from rfl)⟩

end EventLoop
end Claire
