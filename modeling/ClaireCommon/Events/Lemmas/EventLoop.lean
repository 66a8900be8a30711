import ClaireCommon.Events.Impl.EventLoop

namespace Claire

universe u v

namespace EventLoop

variable {τ : Type u} {ι : Type v}

section Projections

variable (l : EventLoop τ ι)

theorem wakeup_eq : l.wakeup = { l with wakeupFd := l.wakeup.wakeupFd } := by
  unfold wakeup
  split <;> rfl

theorem wakeupFd_wakeup_pos : 0 < l.wakeup.wakeupFd := by
  unfold wakeup
  split
  . exact Nat.succ_pos _
  . omega

theorem nextIteration_eq : l.nextIteration = { l with pc := l.nextIteration.pc } := by
  unfold nextIteration
  split <;> rfl

theorem nextIteration_pc : l.nextIteration.pc = .stopped ∨ l.nextIteration.pc = .polling := by
  unfold nextIteration
  split
  . exact Or.inl rfl
  . exact Or.inr rfl

@[simp]
theorem wakeup_tid : l.wakeup.tid = l.tid := by rw [wakeup_eq]

@[simp]
theorem wakeup_pendingTasks : l.wakeup.pendingTasks = l.pendingTasks := by rw [wakeup_eq]

@[simp]
theorem wakeup_contexts : l.wakeup.contexts = l.contexts := by rw [wakeup_eq]

@[simp]
theorem wakeup_calls : l.wakeup.calls = l.calls := by rw [wakeup_eq]

@[simp]
theorem wakeup_currentActiveChannel
    : l.wakeup.currentActiveChannel = l.currentActiveChannel := by rw [wakeup_eq]

@[simp]
theorem wakeup_pc : l.wakeup.pc = l.pc := by rw [wakeup_eq]

@[simp]
theorem nextIteration_tid : l.nextIteration.tid = l.tid := by rw [nextIteration_eq]

@[simp]
theorem nextIteration_pendingTasks : l.nextIteration.pendingTasks = l.pendingTasks := by
  rw [nextIteration_eq]

@[simp]
theorem nextIteration_contexts : l.nextIteration.contexts = l.contexts := by rw [nextIteration_eq]

@[simp]
theorem nextIteration_calls : l.nextIteration.calls = l.calls := by rw [nextIteration_eq]

@[simp]
theorem nextIteration_currentActiveChannel
    : l.nextIteration.currentActiveChannel = l.currentActiveChannel := by rw [nextIteration_eq]

@[simp]
theorem nextIteration_wakeupFd : l.nextIteration.wakeupFd = l.wakeupFd := by rw [nextIteration_eq]

variable [DecidableEq ι] (t : ι)

theorem setCall_calls_self (call : Call τ) : (l.setCall t call).calls t = call := by
  simp [setCall]

theorem post_calls_self (context : TraceContext) (task : τ)
    : (l.post t context task).calls t = .posting context task :=
  setCall_calls_self l t _

theorem push_calls_self (task : τ) : (l.push t task).calls t = .pushed := by
  rw [push, setCall_calls_self]

theorem wakeupAfterPush_eq
    : l.wakeupAfterPush t
        =
      { l.setCall t .idle with wakeupFd := (l.wakeupAfterPush t).wakeupFd } := by
  unfold wakeupAfterPush
  dsimp only
  split
  . rw [wakeup_eq]
  . rfl

theorem wakeupFd_wakeupAfterPush_pos (h : t ≠ l.tid ∨ l.currentActiveChannel = none)
    : 0 < (l.wakeupAfterPush t).wakeupFd := by
  unfold wakeupAfterPush
  dsimp only
  split
  . apply wakeupFd_wakeup_pos
  . next hskip =>
    exfalso
    apply hskip
    cases h with
    | inl h => simp [isInLoopThread, setCall, Ne.symm h]
    | inr h => simp [setCall, h]

theorem quit_eq
    : l.quit t
        =
      { l with quitting := true, calls := (l.quit t).calls } := by
  unfold quit
  dsimp only
  split <;> rfl

theorem quit_calls
    : (l.quit t).calls = Function.update l.calls t .quitting ∧ t ≠ l.tid
        ∨ (l.quit t).calls = l.calls := by
  unfold quit
  dsimp only
  split
  . next h =>
    apply Or.inl
    constructor
    . rfl
    . intro heq
      simp [isInLoopThread, heq] at h
  . exact Or.inr rfl

end Projections

variable {l l' : EventLoop τ ι}

structure Inv (l : EventLoop τ ι) : Prop where
  -- A thread does not change its context while it is in a call.
  context {t : ι} {context : TraceContext} {task : τ}
    : l.calls t = .posting context task → l.contexts t = context
  loopCall : l.calls l.tid ≠ .idle → l.pc.runsUserCode

theorem inv_init (tid : ι) : Inv (init tid : EventLoop τ ι) where
  context := by
    intro t context task h
    contradiction
  loopCall := by
    intro h
    exact absurd rfl h

theorem Inv.idle (hinv : Inv l) (h : l.pc.runsUserCode = false) : l.calls l.tid = .idle := by
  by_contra hcall
  have := hinv.loopCall hcall
  rw [h] at this
  contradiction

theorem Inv.of_calls_eq (hinv : Inv l) (htid : l'.tid = l.tid) (hcalls : l'.calls = l.calls)
    (hcontexts : ∀ t, l.calls t ≠ .idle → l'.contexts t = l.contexts t)
    (hpc : l.calls l.tid = .idle ∨ l'.pc.runsUserCode)
    : Inv l' := by
  constructor
  . intro t context task hcall
    rw [hcalls] at hcall
    rw [hcontexts t (by rw [hcall]; simp)]
    exact hinv.context hcall
  . intro hcall
    rw [hcalls, htid] at hcall
    cases hpc with
    | inl hidle => contradiction
    | inr hpc => exact hpc

theorem Inv.of_calls_update [DecidableEq ι] {t : ι} {call : Call τ} (hinv : Inv l)
    (htid : l'.tid = l.tid) (hcalls : l'.calls = Function.update l.calls t call)
    (hcontexts : l'.contexts = l.contexts) (hpc : l'.pc = l.pc)
    (hcontext : ∀ context task, call = .posting context task → l.contexts t = context)
    (hloop : t = l.tid → call = .idle ∨ l.pc.runsUserCode)
    : Inv l' := by
  constructor
  . intro t' context task hcall
    rw [hcontexts]
    rw [hcalls] at hcall
    by_cases htt : t' = t
    . rw [htt, Function.update_self] at hcall
      rw [htt]
      exact hcontext context task hcall
    . rw [Function.update_of_ne htt] at hcall
      exact hinv.context hcall
  . intro hcall
    rw [hpc]
    rw [hcalls, htid] at hcall
    by_cases htt : t = l.tid
    . rw [htt, Function.update_self] at hcall
      cases hloop htt with
      | inl hidle => contradiction
      | inr hpc => exact hpc
    . rw [Function.update_of_ne (Ne.symm htt)] at hcall
      exact hinv.loopCall hcall

theorem Inv.of_return [DecidableEq ι] {t : ι} (hinv : Inv l) (htid : l'.tid = l.tid)
    (hcalls : l'.calls = Function.update l.calls t .idle) (hcontexts : l'.contexts = l.contexts)
    (hpc : l'.pc = l.pc) : Inv l' := by
  apply hinv.of_calls_update htid hcalls hcontexts hpc
  . intro context task hposting
    contradiction
  . exact fun _ => Or.inl rfl

theorem Inv.of_context [DecidableEq ι] {t : ι} {context : TraceContext} (hinv : Inv l)
    (htid : l'.tid = l.tid) (hcalls : l'.calls = l.calls)
    (hcontexts : l'.contexts = Function.update l.contexts t context) (hidle : l.calls t = .idle)
    (hpc : l.calls l.tid = .idle ∨ l'.pc.runsUserCode) : Inv l' := by
  apply hinv.of_calls_eq htid hcalls _ hpc
  intro t' hbusy
  rw [hcontexts]
  apply Function.update_of_ne
  intro htt
  rw [htt] at hbusy
  exact hbusy hidle

theorem Inv.idle_or (hinv : Inv l) : l.calls l.tid = .idle ∨ l.pc.runsUserCode := by
  by_cases hidle : l.calls l.tid = .idle
  . exact Or.inl hidle
  . exact Or.inr (hinv.loopCall hidle)

variable [DecidableEq ι] [DecidableEq τ]

theorem mayCall_calls {t : ι} (h : l.mayCall t) : l.calls t = .idle := by
  simp only [mayCall, Bool.and_eq_true, decide_eq_true_eq] at h
  exact h.1

theorem mayCall_pc (h : l.mayCall l.tid) : l.pc.runsUserCode := by
  simp only [mayCall, isInLoopThread, decide_true, Bool.not_true, Bool.false_or, Bool.and_eq_true]
    at h
  exact h.2

theorem step_setTraceContext {t : ι} {context : TraceContext}
    (h : step l (.setTraceContext t context) = some l')
    : l.mayCall t ∧ l' = l.setTraceContext t context := by
  dsimp only [step] at h
  split at h
  . next hcall => exact ⟨hcall, (Option.some.inj h).symm⟩
  . contradiction

theorem step_post {t : ι} {context : TraceContext} {task : τ}
    (h : step l (.post t context task) = some l')
    : l.mayCall t ∧ l.contexts t = context ∧ l' = l.post t context task := by
  dsimp only [step] at h
  split at h
  . next hcall => exact ⟨hcall.1, hcall.2, (Option.some.inj h).symm⟩
  . contradiction

theorem step_push {t : ι} {context : TraceContext} {task : τ}
    (h : step l (.push t context task) = some l')
    : l.calls t = .posting context task ∧ l' = l.push t task := by
  dsimp only [step] at h
  split at h
  . next hcall => exact ⟨hcall, (Option.some.inj h).symm⟩
  . contradiction

theorem step_wakeup {t : ι} (h : step l (.wakeup t) = some l')
    : (l.calls t = .pushed ∧ l' = l.wakeupAfterPush t)
        ∨ (l.calls t = .quitting ∧ l' = (l.setCall t .idle).wakeup) := by
  dsimp only [step] at h
  split at h
  . next hcall => exact Or.inl ⟨hcall, (Option.some.inj h).symm⟩
  . next hcall => exact Or.inr ⟨hcall, (Option.some.inj h).symm⟩
  . contradiction

theorem calls_of_wakeup {t : ι} (h : step l (.wakeup t) = some l')
    : l'.calls = Function.update l.calls t .idle := by
  cases step_wakeup h with
  | inl hpushed => rw [hpushed.2, wakeupAfterPush_eq, setCall]
  | inr hquitting => rw [hquitting.2, wakeup_eq, setCall]

theorem step_quit {t : ι} (h : step l (.quit t) = some l') : l.mayCall t ∧ l' = l.quit t := by
  dsimp only [step] at h
  split at h
  . next hcall => exact ⟨hcall, (Option.some.inj h).symm⟩
  . contradiction

theorem step_loop (h : step l .loop = some l')
    : l.pc = .stopped ∧ l.calls l.tid = .idle ∧ l' = l.nextIteration := by
  dsimp only [step] at h
  split at h
  . next hpc =>
    split at h
    . next hcall => exact ⟨hpc, hcall, (Option.some.inj h).symm⟩
    . contradiction
  . contradiction

theorem step_poll {active : List Channel} (h : step l (.poll active) = some l')
    : l.pc = .polling ∧ l' = { l with pc := .dispatching active } := by
  dsimp only [step] at h
  split at h
  . next hpc => exact ⟨hpc, (Option.some.inj h).symm⟩
  . contradiction

theorem step_beginEvent (h : step l .beginEvent = some l')
    : ∃ channel rest, l.pc = .dispatching (channel :: rest) ∧ l' = l.beginEvent channel rest := by
  dsimp only [step] at h
  split at h
  . next channel rest hpc => exact ⟨channel, rest, hpc, (Option.some.inj h).symm⟩
  . contradiction

theorem step_onWakeup (h : step l .onWakeup = some l')
    : ∃ rest, l.pc = .onEvent rest ∧ l' = l.onWakeup := by
  dsimp only [step] at h
  split at h
  . next rest hpc =>
    split at h
    . exact ⟨rest, hpc, (Option.some.inj h).symm⟩
    . contradiction
  . contradiction

theorem step_endEvent (h : step l .endEvent = some l')
    : ∃ rest, l.pc = .onEvent rest ∧ l.calls l.tid = .idle
        ∧ l' = { l with pc := .dispatching rest } := by
  dsimp only [step] at h
  split at h
  . next rest hpc =>
    split at h
    . next hcall => exact ⟨rest, hpc, hcall, (Option.some.inj h).symm⟩
    . contradiction
  . contradiction

theorem step_endDispatch (h : step l .endDispatch = some l')
    : l.pc = .dispatching [] ∧ l' = l.endDispatch := by
  dsimp only [step] at h
  split at h
  . next hpc => exact ⟨hpc, (Option.some.inj h).symm⟩
  . contradiction

theorem step_swap (h : step l .swap = some l') : l.pc = .swapping ∧ l' = l.swap := by
  dsimp only [step] at h
  split at h
  . next hpc => exact ⟨hpc, (Option.some.inj h).symm⟩
  . contradiction

theorem step_beginTask {context : TraceContext} {task : τ}
    (h : step l (.beginTask context task) = some l')
    : ∃ rest, l.pc = .runningTasks ((context, task) :: rest)
        ∧ l' = l.beginTask (context, task) rest := by
  dsimp only [step] at h
  split at h
  . next entry rest hpc =>
    split at h
    . next heq =>
      have hentry : entry = (context, task) := by
        apply Prod.ext
        . simpa [getTraceContext, beginTask, setTraceContext] using heq.1
        . exact heq.2
      rw [hentry] at hpc h
      exact ⟨rest, hpc, (Option.some.inj h).symm⟩
    . contradiction
  . contradiction

theorem step_endTask (h : step l .endTask = some l')
    : ∃ rest, l.pc = .inTask rest ∧ l.calls l.tid = .idle ∧ l' = l.endTask rest := by
  dsimp only [step] at h
  split at h
  . next rest hpc =>
    split at h
    . next hcall => exact ⟨rest, hpc, hcall, (Option.some.inj h).symm⟩
    . contradiction
  . contradiction

theorem step_iterate (h : step l .iterate = some l')
    : l.pc = .runningTasks [] ∧ l' = l.nextIteration := by
  dsimp only [step] at h
  split at h
  . next hpc => exact ⟨hpc, (Option.some.inj h).symm⟩
  . contradiction

theorem tid_of_step {a : Label τ ι} (h : step l a = some l') : l'.tid = l.tid := by
  cases a <;> grind [step, EventLoop.setTraceContext, resetTraceContext, EventLoop.post,
    EventLoop.push, EventLoop.wakeup, EventLoop.wakeupAfterPush, EventLoop.quit, setCall,
    nextIteration, EventLoop.beginEvent, EventLoop.onWakeup, EventLoop.endDispatch, EventLoop.swap,
    EventLoop.beginTask, EventLoop.endTask]

theorem tid_of_run {tid : ι} {as : List (Label τ ι)} (h : run (init tid) as = some l)
    : l.tid = tid := by
  apply Machine.run_invariant (P := fun l : EventLoop τ ι => l.tid = tid) _ rfl h
  intro l a l' htid hstep
  rw [tid_of_step hstep, htid]

theorem inv_step {a : Label τ ι} (hinv : Inv l) (h : step l a = some l') : Inv l' := by
  cases a with
  | setTraceContext t context =>
    have ⟨hcall, heq⟩ := step_setTraceContext h
    rw [heq]
    exact hinv.of_context rfl rfl rfl (mayCall_calls hcall) hinv.idle_or
  | post t context task =>
    have ⟨hcall, hcontext, heq⟩ := step_post h
    rw [heq]
    apply hinv.of_calls_update (t := t)
    . rfl
    . rfl
    . rfl
    . rfl
    . intro context' task' hposting
      rw [hcontext]
      injection hposting
    . intro htid
      rw [htid] at hcall
      exact Or.inr (mayCall_pc hcall)
  | push t context task =>
    have ⟨hcall, heq⟩ := step_push h
    rw [heq]
    apply hinv.of_calls_update (t := t)
    . rfl
    . rfl
    . rfl
    . rfl
    . intro context' task' hposting
      contradiction
    . intro htid
      apply Or.inr
      apply hinv.loopCall
      rw [← htid, hcall]
      simp
  | wakeup t =>
    cases step_wakeup h with
    | inl hpushed =>
      rw [hpushed.2, wakeupAfterPush_eq]
      exact hinv.of_return rfl rfl rfl rfl
    | inr hquitting =>
      rw [hquitting.2, wakeup_eq]
      exact hinv.of_return rfl rfl rfl rfl
  | quit t =>
    have ⟨hcall, heq⟩ := step_quit h
    rw [heq, quit_eq]
    cases quit_calls l t with
    | inl hcalls =>
      apply hinv.of_calls_update (t := t)
      . rfl
      . exact hcalls.1
      . rfl
      . rfl
      . intro context task hposting
        contradiction
      . intro htid
        exact absurd htid hcalls.2
    | inr hcalls => exact hinv.of_calls_eq rfl hcalls (fun _ _ => rfl) hinv.idle_or
  | loop =>
    have ⟨hpc, hidle, heq⟩ := step_loop h
    rw [heq, nextIteration_eq]
    exact hinv.of_calls_eq rfl rfl (fun _ _ => rfl) (Or.inl hidle)
  | poll active =>
    have ⟨hpc, heq⟩ := step_poll h
    rw [heq]
    exact hinv.of_calls_eq rfl rfl (fun _ _ => rfl) (Or.inl (hinv.idle (by rw [hpc]; rfl)))
  | beginEvent =>
    have ⟨channel, rest, hpc, heq⟩ := step_beginEvent h
    rw [heq]
    exact hinv.of_calls_eq rfl rfl (fun _ _ => rfl) (Or.inr rfl)
  | onWakeup =>
    have ⟨rest, hpc, heq⟩ := step_onWakeup h
    rw [heq]
    apply hinv.of_calls_eq
    . rfl
    . rfl
    . exact fun _ _ => rfl
    . apply Or.inr
      dsimp only [EventLoop.onWakeup]
      rw [hpc]
      rfl
  | endEvent =>
    have ⟨rest, hpc, hidle, heq⟩ := step_endEvent h
    rw [heq]
    exact hinv.of_calls_eq rfl rfl (fun _ _ => rfl) (Or.inl hidle)
  | endDispatch =>
    have ⟨hpc, heq⟩ := step_endDispatch h
    rw [heq]
    exact hinv.of_calls_eq rfl rfl (fun _ _ => rfl) (Or.inl (hinv.idle (by rw [hpc]; rfl)))
  | swap =>
    have ⟨hpc, heq⟩ := step_swap h
    rw [heq]
    exact hinv.of_calls_eq rfl rfl (fun _ _ => rfl) (Or.inl (hinv.idle (by rw [hpc]; rfl)))
  | beginTask context task =>
    have ⟨rest, hpc, heq⟩ := step_beginTask h
    have hidle := hinv.idle (by rw [hpc]; rfl)
    rw [heq]
    exact hinv.of_context rfl rfl rfl hidle (Or.inl hidle)
  | endTask =>
    have ⟨rest, hpc, hidle, heq⟩ := step_endTask h
    rw [heq]
    exact hinv.of_context rfl rfl rfl hidle (Or.inl hidle)
  | iterate =>
    have ⟨hpc, heq⟩ := step_iterate h
    rw [heq, nextIteration_eq]
    exact hinv.of_calls_eq rfl rfl (fun _ _ => rfl) (Or.inl (hinv.idle (by rw [hpc]; rfl)))

theorem inv_run {tid : ι} {as : List (Label τ ι)} (h : run (init tid) as = some l) : Inv l := by
  apply Machine.run_invariant _ (inv_init tid) h
  intro l a l' hinv hstep
  exact inv_step hinv hstep

end EventLoop
end Claire
