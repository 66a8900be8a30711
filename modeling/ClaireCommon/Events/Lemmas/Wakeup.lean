import ClaireCommon.Events.Lemmas.EventLoop

/-!
This module contains that the loop thread does not go to sleep in `poll` over a posted task: the
eventfd is positive or will be written to by a thread that has pushed its task already.
-/

namespace Claire

universe u v

namespace EventLoop

variable {τ : Type u} {ι : Type v}

def Pc.dispatches : Pc τ → Bool
  | .dispatching _ | .onEvent _ => true
  | _ => false

-- The loop thread reaches `RunPendingTasks` before the next `poll`.
def Pc.reachesSwap : Pc τ → Bool
  | .dispatching _ | .onEvent _ | .swapping => true
  | _ => false

structure WakeupInv (l : EventLoop τ ι) : Prop where
  channel : l.currentActiveChannel ≠ none → l.pc.dispatches
  woken : l.pendingTasks ≠ [] →
    l.pc.reachesSwap ∨ 0 < l.wakeupFd ∨ ∃ t, l.calls t = .pushed

theorem wakeupInv_init (tid : ι) : WakeupInv (init tid : EventLoop τ ι) where
  channel := fun h => absurd rfl h
  woken := fun h => absurd rfl h

variable {l l' : EventLoop τ ι}

theorem Pc.reachesSwap_of_dispatches {pc : Pc τ} (h : pc.dispatches) : pc.reachesSwap := by
  cases pc with
  | dispatching active => rfl
  | onEvent active => rfl
  | _ => contradiction

theorem WakeupInv.of_dispatches (h : l.pc.dispatches) : WakeupInv l where
  channel := fun _ => h
  woken := fun _ => Or.inl (Pc.reachesSwap_of_dispatches h)

theorem WakeupInv.of_eq (hinv : WakeupInv l)
    (hchannel : l'.currentActiveChannel = l.currentActiveChannel)
    (hpending : l'.pendingTasks = l.pendingTasks) (hfd : l'.wakeupFd = l.wakeupFd)
    (hcalls : ∀ t, l.calls t = .pushed → l'.calls t = .pushed)
    (hdispatches : l.pc.dispatches = true → l'.pc.dispatches = true)
    (hswap : l.pc.reachesSwap = true → l'.pc.reachesSwap = true) : WakeupInv l' := by
  constructor
  . intro h
    rw [hchannel] at h
    exact hdispatches (hinv.channel h)
  . intro h
    rw [hpending] at h
    rw [hfd]
    cases hinv.woken h with
    | inl hreaches => exact Or.inl (hswap hreaches)
    | inr hawake =>
      apply Or.inr
      cases hawake with
      | inl hpos => exact Or.inl hpos
      | inr hpushed =>
        have ⟨t, ht⟩ := hpushed
        exact Or.inr ⟨t, hcalls t ht⟩

-- From a position that does not reach the swap any position may follow.
theorem WakeupInv.of_not_reachesSwap (hinv : WakeupInv l)
    (hchannel : l'.currentActiveChannel = l.currentActiveChannel)
    (hpending : l'.pendingTasks = l.pendingTasks) (hfd : l'.wakeupFd = l.wakeupFd)
    (hcalls : l'.calls = l.calls) (hpc : l.pc.reachesSwap = false) : WakeupInv l' := by
  apply hinv.of_eq hchannel hpending hfd
  . intro t hpushed
    rw [hcalls, hpushed]
  . intro hdispatches
    have hreaches := Pc.reachesSwap_of_dispatches hdispatches
    rw [hpc] at hreaches
    contradiction
  . intro hreaches
    rw [hpc] at hreaches
    contradiction

variable [DecidableEq ι]

-- Here the skipped `Wakeup` of the loop thread is harmless: it is skipped in a channel callback only.
theorem WakeupInv.of_wakeup (hinv : WakeupInv l) (t : ι) : WakeupInv (l.wakeupAfterPush t) := by
  by_cases hwakeup : t ≠ l.tid ∨ l.currentActiveChannel = none
  . constructor
    . rw [wakeupAfterPush_eq]
      exact hinv.channel
    . intro _
      exact Or.inr (Or.inl (wakeupFd_wakeupAfterPush_pos l t hwakeup))
  . apply WakeupInv.of_dispatches
    rw [wakeupAfterPush_eq]
    apply hinv.channel
    intro hnone
    exact hwakeup (Or.inr hnone)

theorem pushed_of_idle {t t' : ι} (call : Call τ) (h : l.calls t = .idle) (ht' : l.calls t' = .pushed)
    : Function.update l.calls t call t' = .pushed := by
  rw [Function.update_of_ne]
  . exact ht'
  . intro htt
    rw [htt, h] at ht'
    contradiction

variable [DecidableEq τ]

theorem wakeupInv_step {a : Label τ ι} (hinv : WakeupInv l) (h : step l a = some l')
    : WakeupInv l' := by
  cases a with
  | setTraceContext t context =>
    rw [(step_setTraceContext h).2]
    apply hinv.of_eq
    . rfl
    . rfl
    . rfl
    . exact fun _ hpushed => hpushed
    . exact id
    . exact id
  | post t context task =>
    obtain ⟨hcall, _, heq⟩ := step_post h
    rw [heq]
    apply hinv.of_eq
    . rfl
    . rfl
    . rfl
    . intro t' ht'
      exact pushed_of_idle _ (mayCall_calls hcall) ht'
    . exact id
    . exact id
  | push t context task =>
    rw [(step_push h).2]
    constructor
    . exact hinv.channel
    . intro _
      exact Or.inr (Or.inr ⟨t, push_calls_self l t task⟩)
  | wakeup t =>
    cases step_wakeup h with
    | inl hpushed =>
      rw [hpushed.2]
      exact hinv.of_wakeup t
    | inr hquitting =>
      rw [hquitting.2]
      constructor
      . rw [wakeup_eq]
        exact hinv.channel
      . intro _
        exact Or.inr (Or.inl (wakeupFd_wakeup_pos _))
  | quit t =>
    obtain ⟨hcall, heq⟩ := step_quit h
    rw [heq]
    apply hinv.of_eq
    . rw [quit_eq]
    . rw [quit_eq]
    . rw [quit_eq]
    . intro t' ht'
      cases quit_calls l t with
      | inl hcalls =>
        rw [hcalls.1]
        exact pushed_of_idle _ (mayCall_calls hcall) ht'
      | inr hcalls => rw [hcalls, ht']
    . rw [quit_eq]
      exact id
    . rw [quit_eq]
      exact id
  | loop =>
    obtain ⟨hpc, _, heq⟩ := step_loop h
    rw [heq]
    apply hinv.of_not_reachesSwap
    . simp
    . simp
    . simp
    . simp
    . rw [hpc]
      rfl
  | poll active =>
    rw [(step_poll h).2]
    exact WakeupInv.of_dispatches rfl
  | beginEvent =>
    obtain ⟨_, _, _, heq⟩ := step_beginEvent h
    rw [heq]
    exact WakeupInv.of_dispatches rfl
  | onWakeup =>
    obtain ⟨rest, hpc, heq⟩ := step_onWakeup h
    rw [heq]
    apply WakeupInv.of_dispatches
    simp [EventLoop.onWakeup, hpc, Pc.dispatches]
  | endEvent =>
    obtain ⟨_, _, _, heq⟩ := step_endEvent h
    rw [heq]
    exact WakeupInv.of_dispatches rfl
  | endDispatch =>
    rw [(step_endDispatch h).2]
    constructor
    . intro hchannel
      exact absurd rfl hchannel
    . intro _
      exact Or.inl rfl
  | swap =>
    obtain ⟨hpc, heq⟩ := step_swap h
    rw [heq]
    constructor
    . intro hchannel
      have := hinv.channel hchannel
      rw [hpc] at this
      contradiction
    . intro hpending
      exact absurd rfl hpending
  | beginTask context task =>
    obtain ⟨rest, hpc, heq⟩ := step_beginTask h
    rw [heq]
    apply hinv.of_not_reachesSwap
    . rfl
    . rfl
    . rfl
    . rfl
    . rw [hpc]
      rfl
  | endTask =>
    obtain ⟨rest, hpc, _, heq⟩ := step_endTask h
    rw [heq]
    apply hinv.of_not_reachesSwap
    . rfl
    . rfl
    . rfl
    . rfl
    . rw [hpc]
      rfl
  | iterate =>
    obtain ⟨hpc, heq⟩ := step_iterate h
    rw [heq]
    apply hinv.of_not_reachesSwap
    . simp
    . simp
    . simp
    . simp
    . rw [hpc]
      rfl

theorem wakeupInv_run {tid : ι} {as : List (Label τ ι)} (h : run (init tid) as = some l)
    : WakeupInv l := by
  apply Machine.run_invariant _ (wakeupInv_init tid) h
  intro l a l' hinv hstep
  exact wakeupInv_step hinv hstep

theorem woken_when_polling {tid : ι} {as : List (Label τ ι)} (h : run (init tid) as = some l)
    (hpoll : l.pc = .polling) (hpending : l.pendingTasks ≠ [])
    : 0 < l.wakeupFd ∨ ∃ t, t ≠ tid ∧ l.calls t = .pushed := by
  cases (wakeupInv_run h).woken hpending with
  | inl hswap =>
    rw [hpoll] at hswap
    contradiction
  | inr hwoken =>
    cases hwoken with
    | inl hpos => exact Or.inl hpos
    | inr hpushed =>
      have ⟨t, ht⟩ := hpushed
      have hidle : l.calls l.tid = .idle := by
        apply (inv_run h).idle
        rw [hpoll]
        rfl
      apply Or.inr
      exists t
      constructor
      . intro htid
        rw [htid, ← tid_of_run h, hidle] at ht
        contradiction
      . exact ht

theorem woken_when_polling_after_push
    : ∃ l : EventLoop Nat Nat,
        run (init 0) [.post 1 (0, 0) 5, .loop, .push 1 (0, 0) 5] = some l
          ∧ l.wakeupFd = 0 ∧ (0 < l.wakeupFd ∨ ∃ t, t ≠ 0 ∧ l.calls t = .pushed) := by
  have h : run (init 0) [.post 1 (0, 0) 5, .loop, .push 1 (0, 0) 5]
      = some (((init 0).post 1 (0, 0) 5).nextIteration.push 1 5) := rfl
  have hpending : (((init 0).post 1 (0, 0) 5).nextIteration.push 1 5).pendingTasks ≠ [] :=
    List.cons_ne_nil ((0, 0), 5) []
  exact ⟨_, h, rfl, woken_when_polling h rfl hpending⟩

end EventLoop
end Claire
