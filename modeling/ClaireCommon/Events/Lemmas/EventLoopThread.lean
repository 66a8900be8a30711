import ClaireCommon.Events.Impl.EventLoopThread
import ClaireCommon.Events.Lemmas.EventLoop

/-!
This module contains when the loop lives that the destructor of an `EventLoopThread` accesses.
-/

namespace Claire

universe u v

namespace EventLoop

variable {τ : Type u} {ι : Type v} {l l' : EventLoop τ ι}

def Stopped (l : EventLoop τ ι) : Prop :=
  match l.pc with
  | .stopped => True
  | _ => False

theorem nextIteration_of_not_quitting (h : l.quitting = false)
    : l.nextIteration = { l with pc := .polling } := by
  unfold nextIteration
  rw [h]
  rfl

theorem step_of_not_quitting [DecidableEq τ] [DecidableEq ι] {label : Label τ ι} (h : step l label = some l')
    (hlabel : ∀ t, label ≠ .quit t) (hquitting : l.quitting = false)
    : l'.quitting = false ∧ (l'.pc = l.pc ∨ ¬l'.Stopped) := by
  cases label with
  | setTraceContext t context =>
    rw [(step_setTraceContext h).2]
    exact ⟨hquitting, Or.inl rfl⟩
  | post t context task =>
    rw [(step_post h).2.2]
    exact ⟨hquitting, Or.inl rfl⟩
  | push t context task =>
    rw [(step_push h).2]
    exact ⟨hquitting, Or.inl rfl⟩
  | wakeup t =>
    cases step_wakeup h with
    | inl hpushed =>
      rw [hpushed.2, wakeupAfterPush_eq]
      exact ⟨hquitting, Or.inl rfl⟩
    | inr hquit =>
      rw [hquit.2, wakeup_eq]
      exact ⟨hquitting, Or.inl rfl⟩
  | quit t => exact absurd rfl (hlabel t)
  | loop =>
    rw [(step_loop h).2.2, nextIteration_of_not_quitting hquitting]
    exact ⟨hquitting, Or.inr id⟩
  | poll active =>
    rw [(step_poll h).2]
    exact ⟨hquitting, Or.inr id⟩
  | beginEvent =>
    have ⟨channel, rest, _, heq⟩ := step_beginEvent h
    rw [heq]
    exact ⟨hquitting, Or.inr id⟩
  | onWakeup =>
    have ⟨rest, _, heq⟩ := step_onWakeup h
    rw [heq]
    exact ⟨hquitting, Or.inl rfl⟩
  | endEvent =>
    have ⟨rest, _, _, heq⟩ := step_endEvent h
    rw [heq]
    exact ⟨hquitting, Or.inr id⟩
  | endDispatch =>
    rw [(step_endDispatch h).2]
    exact ⟨hquitting, Or.inr id⟩
  | swap =>
    rw [(step_swap h).2]
    exact ⟨hquitting, Or.inr id⟩
  | beginTask context task =>
    have ⟨rest, _, heq⟩ := step_beginTask h
    rw [heq]
    exact ⟨hquitting, Or.inr id⟩
  | endTask =>
    have ⟨rest, _, _, heq⟩ := step_endTask h
    rw [heq]
    exact ⟨hquitting, Or.inr id⟩
  | iterate =>
    rw [(step_iterate h).2, nextIteration_of_not_quitting hquitting]
    exact ⟨hquitting, Or.inr id⟩

end EventLoop

namespace EventLoopThread

variable {τ : Type u}

def LoopLives (s : EventLoopThread τ) : Prop := s.loop = true ∧ s.object ≠ none

def Owner.hasQuit : Owner → Bool
  | .inQuit | .joining | .destroyed => true
  | _ => false

theorem inLoop_of_not_stopped {l : EventLoop τ Party} (h : ¬l.Stopped) : inLoop l = .looping := by
  unfold EventLoop.Stopped at h
  unfold inLoop
  cases hpc : l.pc with
  | stopped =>
    rw [hpc] at h
    exact absurd trivial h
  | _ => rfl

-- What holds until the destructor quits the loop if nobody else does
structure Undisturbed (s : EventLoopThread τ) : Prop where
  idle : s.owner = .idle → s.thread = .notStarted
  owner : s.owner = .started ∨ s.owner = .inDestructor → s.loop = true
  loop : s.loop = true → s.thread = .published ∨ s.thread = .looping
  thread : s.thread ≠ .returned ∧ s.thread ≠ .finished
  object : s.thread = .callback ∨ s.thread = .published ∨ s.thread = .looping →
    ∃ l, s.object = some l ∧ l.quitting = false ∧ (s.thread = .looping → ¬l.Stopped)

theorem Undisturbed.loopLives {s : EventLoopThread τ} (h : s.Undisturbed)
    (howner : s.owner = .started ∨ s.owner = .inDestructor) : s.LoopLives := by
  have hloop := h.owner howner
  have ⟨l, hl, _⟩ := h.object (Or.inr (h.loop hloop))
  apply And.intro hloop
  rw [hl]
  simp

theorem create_undisturbed : (create : EventLoopThread τ).Undisturbed where
  idle _ := rfl
  owner := by
    intro h
    simp [create] at h
  loop := by
    intro h
    contradiction
  thread := by simp [create]
  object := by
    intro h
    simp [create] at h

variable {program : Program} {s s' : EventLoopThread τ}

theorem mayStep_quit (hcallback : program.callbackQuits = false) (hloop : program.loopQuits = false)
    (t : Party) : mayStep program s (.quit t) = false := by
  cases t with
  | owner => rfl
  | other i => rfl
  | loopThread =>
    unfold mayStep party mayQuit
    cases s.thread with
    | callback => exact hcallback
    | looping => exact hloop
    | _ => rfl

structure Quiet (program : Program) : Prop where
  starts : program.destroys = true → program.starts = true
  callback : program.callbackQuits = false
  loop : program.loopQuits = false

variable [DecidableEq τ]

theorem Undisturbed.goOn (h : s.Undisturbed) {l l' : EventLoop τ Party} (hl : s.object = some l)
    {label : EventLoop.Label τ Party} (hstep : l.step label = some l')
    (hlabel : ∀ t, label ≠ .quit t) : (s.goOn l').Undisturbed := by
  have hlives : s.thread = .callback ∨ s.thread = .published ∨ s.thread = .looping →
      l'.quitting = false ∧ (s.thread = .looping → ¬l'.Stopped) := by
    intro hthread
    have ⟨m, hm, hquitting, hstopped⟩ := h.object hthread
    rw [hl] at hm
    injection hm with hm
    subst hm
    have ⟨hquitting', hpc⟩ := EventLoop.step_of_not_quitting hstep hlabel hquitting
    apply And.intro hquitting'
    intro hlooping
    cases hpc with
    | inl hpc =>
      unfold EventLoop.Stopped
      rw [hpc]
      exact hstopped hlooping
    | inr hpc => exact hpc
  have hthread : (s.goOn l').thread = s.thread := by
    unfold EventLoopThread.goOn
    dsimp only
    split
    . next hlooping =>
      rw [hlooping]
      apply inLoop_of_not_stopped
      apply (hlives (Or.inr (Or.inr hlooping))).2 hlooping
    . rfl
  constructor
  . rw [hthread]
    exact h.idle
  . exact h.owner
  . rw [hthread]
    exact h.loop
  . rw [hthread]
    exact h.thread
  . rw [hthread]
    intro hlives'
    exact ⟨l', rfl, hlives hlives'⟩

inductive Stepped (program : Program) (s : EventLoopThread τ) : Label τ → EventLoopThread τ → Prop
  | start (hstarts : program.starts = true) (hidle : s.owner = .idle)
      : Stepped program s .start { s with owner := .inStartLoop, thread := .entered }
  | testLoop (howner : s.owner = .inStartLoop ∨ s.owner = .waiting)
      : Stepped program s .testLoop { s with owner := if s.loop then .started else .waiting }
  | destroy (hdestroys : program.destroys = true)
      (howner : s.owner = if program.starts then .started else .idle)
      : Stepped program s .destroy { s with owner := .inDestructor }
  | quit {l : EventLoop τ Party} (howner : s.owner = .inDestructor)
      : Stepped program s .quit { s with owner := .inQuit, object := some l }
  | wakeup {l : EventLoop τ Party} (howner : s.owner = .inQuit)
      : Stepped program s .wakeup { s with owner := .joining, object := some l }
  | join (howner : s.owner = .joining) : Stepped program s .join { s with owner := .destroyed }
  | construct (hthread : s.thread = .entered)
      : Stepped program s .construct { s with thread := .callback, object := some (.init .loopThread) }
  | publish (hthread : s.thread = .callback)
      : Stepped program s .publish { s with thread := .published, loop := true }
  | callLoop {l l' : EventLoop τ Party} (hthread : s.thread = .published) (hl : s.object = some l)
      (hloop : l.step .loop = some l')
      : Stepped program s .callLoop { s with thread := inLoop l', object := some l' }
  | loop {label : EventLoop.Label τ Party} {l l' : EventLoop τ Party} (hl : s.object = some l)
      (hmay : mayStep program s label = true) (hloop : l.step label = some l')
      : Stepped program s (.loop label) (s.goOn l')
  | destroyLoop (hthread : s.thread = .returned)
      : Stepped program s .destroyLoop { s with thread := .finished, object := none }

theorem stepped_of_step {label : Label τ} (hstep : step program s label = some s')
    : Stepped program s label s' := by
  cases label with
  | testLoop =>
    dsimp only [EventLoopThread.step] at hstep
    split at hstep
    . next howner =>
      injection hstep with heq
      rw [← heq]
      exact .testLoop (Or.inl howner)
    . next howner =>
      injection hstep with heq
      rw [← heq]
      exact .testLoop (Or.inr howner)
    . contradiction
  | quit =>
    dsimp only [EventLoopThread.step] at hstep
    split at hstep
    . next howner _ _ =>
      injection hstep with heq
      rw [← heq]
      exact .quit howner
    . contradiction
  | wakeup =>
    dsimp only [EventLoopThread.step] at hstep
    split at hstep
    . next howner _ =>
      split at hstep
      . injection hstep with heq
        rw [← heq]
        exact .wakeup howner
      . contradiction
    . contradiction
  | callLoop =>
    dsimp only [EventLoopThread.step] at hstep
    split at hstep
    . next l hthread hl =>
      split at hstep
      . next l' hloop =>
        injection hstep with heq
        rw [← heq]
        exact .callLoop hthread hl hloop
      . contradiction
    . contradiction
  | loop label =>
    dsimp only [EventLoopThread.step] at hstep
    split at hstep
    . next l hl =>
      split at hstep
      . next hmay =>
        have ⟨l', hloop, heq⟩ := Option.map_eq_some_iff.mp hstep
        rw [← heq]
        exact .loop hl hmay hloop
      . contradiction
    . contradiction
  | start =>
    dsimp only [EventLoopThread.step] at hstep
    rw [Option.ite_none_right_eq_some] at hstep
    have ⟨⟨hstarts, hidle⟩, heq⟩ := hstep
    injection heq with heq
    rw [← heq]
    exact .start hstarts hidle
  | destroy =>
    dsimp only [EventLoopThread.step] at hstep
    rw [Option.ite_none_right_eq_some] at hstep
    have ⟨⟨hdestroys, howner, _⟩, heq⟩ := hstep
    injection heq with heq
    rw [← heq]
    exact .destroy hdestroys howner
  | join =>
    dsimp only [EventLoopThread.step] at hstep
    rw [Option.ite_none_right_eq_some] at hstep
    have ⟨⟨howner, _⟩, heq⟩ := hstep
    injection heq with heq
    rw [← heq]
    exact .join howner
  | publish =>
    dsimp only [EventLoopThread.step] at hstep
    rw [Option.ite_none_right_eq_some] at hstep
    have ⟨⟨hthread, _⟩, heq⟩ := hstep
    injection heq with heq
    rw [← heq]
    exact .publish hthread
  | construct | destroyLoop =>
    dsimp only [EventLoopThread.step] at hstep
    rw [Option.ite_none_right_eq_some] at hstep
    have ⟨hthread, heq⟩ := hstep
    injection heq with heq
    rw [← heq]
    constructor
    exact hthread

theorem Undisturbed.step (hquiet : Quiet program) (h : s.Undisturbed) {label : Label τ}
    (hstep : step program s label = some s') : s'.owner.hasQuit = true ∨ s'.Undisturbed := by
  cases stepped_of_step hstep with
  | quit => exact Or.inl rfl
  | wakeup => exact Or.inl rfl
  | join => exact Or.inl rfl
  | start hstarts hidle =>
    have hthread := h.idle hidle
    apply Or.inr
    constructor
    . simp
    . simp
    . intro hloop
      have := h.loop hloop
      rw [hthread] at this
      simp at this
    . simp
    . simp
  | testLoop howner =>
    apply Or.inr
    constructor
    . split <;> simp
    . cases hloop : s.loop <;> simp
    . exact h.loop
    . exact h.thread
    . exact h.object
  | destroy hdestroys howner =>
    rw [if_pos (hquiet.starts hdestroys)] at howner
    apply Or.inr
    constructor
    . simp
    . intro _
      exact h.owner (Or.inl howner)
    . exact h.loop
    . exact h.thread
    . exact h.object
  | construct hthread =>
    apply Or.inr
    constructor
    . intro hidle
      rw [h.idle hidle] at hthread
      contradiction
    . exact h.owner
    . intro hloop
      have := h.loop hloop
      rw [hthread] at this
      simp at this
    . simp
    . intro _
      refine ⟨_, rfl, rfl, ?_⟩
      simp
  | publish hthread =>
    have ⟨l, hl, hquitting, _⟩ := h.object (Or.inl hthread)
    apply Or.inr
    constructor
    . intro hidle
      rw [h.idle hidle] at hthread
      contradiction
    . simp
    . simp
    . simp
    . intro _
      refine ⟨l, hl, hquitting, ?_⟩
      simp
  | @callLoop l l' hthread hl hloop =>
    have ⟨m, hm, hquitting, _⟩ := h.object (Or.inr (Or.inl hthread))
    rw [hl] at hm
    injection hm with hm
    subst hm
    have hnext := (EventLoop.step_loop hloop).2.2
    rw [EventLoop.nextIteration_of_not_quitting hquitting] at hnext
    have hstopped : ¬l'.Stopped := by
      rw [hnext]
      exact id
    rw [inLoop_of_not_stopped hstopped]
    apply Or.inr
    constructor
    . intro hidle
      rw [h.idle hidle] at hthread
      contradiction
    . exact h.owner
    . simp
    . simp
    . intro _
      refine ⟨l', rfl, ?_, fun _ => hstopped⟩
      rw [hnext]
      exact hquitting
  | loop hl hmay hloop =>
    apply Or.inr
    apply h.goOn hl hloop
    intro t ht
    rw [ht, mayStep_quit hquiet.callback hquiet.loop] at hmay
    contradiction
  | destroyLoop hthread => exact absurd hthread h.thread.1

theorem owner_step {label : Label τ} (hstep : step program s label = some s')
    : s'.owner = s.owner ∨
        s.owner.hasQuit = false ∧ s'.owner ≠ .inDestructor ∧ s'.owner.hasQuit = false ∨
        program.destroys = true ∧ s.owner.hasQuit = false ∧ s'.owner = .inDestructor ∨
        (s.owner = .inDestructor ∨ s.owner.hasQuit = true) ∧ s'.owner.hasQuit = true := by
  cases stepped_of_step hstep with
  | construct | publish | callLoop | loop | destroyLoop => exact Or.inl rfl
  | start hstarts howner =>
    rw [howner]
    simp [Owner.hasQuit]
  | testLoop howner =>
    cases howner with
    | inl howner =>
      rw [howner]
      cases s.loop <;> simp [Owner.hasQuit]
    | inr howner =>
      rw [howner]
      cases s.loop <;> simp [Owner.hasQuit]
  | destroy hdestroys howner =>
    rw [howner]
    cases program.starts <;> simp [Owner.hasQuit, hdestroys]
  | quit howner =>
    rw [howner]
    simp [Owner.hasQuit]
  | wakeup howner =>
    rw [howner]
    simp [Owner.hasQuit]
  | join howner =>
    rw [howner]
    simp [Owner.hasQuit]

theorem hasQuit_step {label : Label τ} (hquit : s.owner.hasQuit = true)
    (hstep : step program s label = some s') : s'.owner.hasQuit = true := by
  cases owner_step hstep with
  | inl heq =>
    rw [heq]
    exact hquit
  | inr h =>
    rw [hquit] at h
    simp at h
    exact h

theorem run_undisturbed (hquiet : Quiet program) {labels : List (Label τ)}
    (hrun : run program labels = some s) : s.owner.hasQuit = true ∨ s.Undisturbed := by
  apply Machine.run_invariant (P := fun s => s.owner.hasQuit = true ∨ s.Undisturbed) _
    (Or.inr create_undisturbed) hrun
  intro s label s' h hstep
  cases h with
  | inl hquit => exact Or.inl (hasQuit_step hquit hstep)
  | inr h => exact h.step hquiet hstep

theorem run_not_destroyed (hdestroys : program.destroys = false) {labels : List (Label τ)}
    (hrun : run program labels = some s) : s.owner ≠ .inDestructor ∧ s.owner.hasQuit = false := by
  apply Machine.run_invariant (P := fun s => s.owner ≠ .inDestructor ∧ s.owner.hasQuit = false) _ _ hrun
  . intro s label s' ⟨hne, hquit⟩ hstep
    cases owner_step hstep with
    | inl heq =>
      rw [heq]
      exact ⟨hne, hquit⟩
    | inr h =>
      rw [hdestroys, hquit] at h
      simp [hne] at h
      exact h
  . simp [create, Owner.hasQuit]

-- The loop ends in an iteration in which an event quits it.
def eventQuits : List (Label τ) := [
  .callLoop,
  .loop (.poll [.user 0]),
  .loop .beginEvent,
  .loop (.quit .loopThread),
  .loop .endEvent,
  .loop .endDispatch,
  .loop .swap,
  .loop .iterate,
  .destroyLoop]

-- The owner sets `quit_` while the loop is in `poll`, the iteration ends before the owner goes on.
def quitInPoll : List (Label τ) := [
  .callLoop,
  .destroy,
  .quit,
  .loop (.poll []),
  .loop .endDispatch,
  .loop .swap,
  .loop .iterate,
  .destroyLoop]

theorem run_not_started (hdestroys : program.destroys = true) (hstarts : program.starts = false)
    : ∃ s : EventLoopThread τ, run program [.destroy] = some s ∧ s.owner = .inDestructor ∧ ¬s.LoopLives := by
  have ⟨starts, destroys, callbackQuits, loopQuits⟩ := program
  subst hdestroys hstarts
  refine ⟨_, rfl, rfl, ?_⟩
  simp [LoopLives, create]

theorem run_callbackQuits (hdestroys : program.destroys = true) (hstarts : program.starts = true)
    (hquits : program.callbackQuits = true)
    : ∃ s : EventLoopThread τ,
        run program [.start, .construct, .loop (.quit .loopThread), .publish, .testLoop, .callLoop,
          .destroyLoop, .destroy] = some s ∧
        s.owner = .inDestructor ∧ ¬s.LoopLives := by
  have ⟨starts, destroys, callbackQuits, loopQuits⟩ := program
  subst hdestroys hstarts hquits
  refine ⟨_, rfl, rfl, ?_⟩
  simp [LoopLives]

theorem run_eventQuits (hdestroys : program.destroys = true) (hstarts : program.starts = true)
    (hquits : program.loopQuits = true)
    : ∃ s : EventLoopThread τ,
        run program ([Label.start, .construct, .publish, .testLoop] ++ eventQuits ++ [Label.destroy])
          = some s ∧
        s.owner = .inDestructor ∧ ¬s.LoopLives := by
  have ⟨starts, destroys, callbackQuits, loopQuits⟩ := program
  subst hdestroys hstarts hquits
  refine ⟨_, rfl, rfl, ?_⟩
  simp [LoopLives]

theorem run_quitInPoll (hdestroys : program.destroys = true) (hstarts : program.starts = true)
    : ∃ s : EventLoopThread τ,
        run program ([Label.start, .construct, .publish, .testLoop] ++ quitInPoll) = some s ∧
        s.owner = .inQuit ∧ ¬s.LoopLives := by
  have ⟨starts, destroys, callbackQuits, loopQuits⟩ := program
  subst hdestroys hstarts
  refine ⟨_, rfl, rfl, ?_⟩
  simp [LoopLives]

theorem loopLives_iff (τ : Type u) [DecidableEq τ] (program : Program)
    : ((∀ (labels : List (Label τ)) (s : EventLoopThread τ), run program labels = some s →
          s.owner = .inDestructor → s.LoopLives) ↔
        (program.destroys = true →
          program.starts = true ∧ program.callbackQuits = false ∧ program.loopQuits = false)) ∧
      ((∀ (labels : List (Label τ)) (s : EventLoopThread τ), run program labels = some s →
          s.owner = .inDestructor ∨ s.owner = .inQuit → s.LoopLives) ↔
        program.destroys = false) := by
  have hstarted : (∀ (labels : List (Label τ)) (s : EventLoopThread τ), run program labels = some s →
      s.owner = .inDestructor → s.LoopLives) → program.destroys = true → program.starts = true := by
    intro h hdestroys
    by_contra hstarts
    rw [Bool.not_eq_true] at hstarts
    have ⟨s, hrun, howner, hdead⟩ := run_not_started (τ := τ) hdestroys hstarts
    exact hdead (h _ s hrun howner)
  constructor
  . constructor
    . intro h hdestroys
      have hstarts := hstarted h hdestroys
      refine ⟨hstarts, ?_, ?_⟩
      . by_contra hquits
        rw [Bool.not_eq_false] at hquits
        have ⟨s, hrun, howner, hdead⟩ := run_callbackQuits (τ := τ) hdestroys hstarts hquits
        exact hdead (h _ s hrun howner)
      . by_contra hquits
        rw [Bool.not_eq_false] at hquits
        have ⟨s, hrun, howner, hdead⟩ := run_eventQuits (τ := τ) hdestroys hstarts hquits
        exact hdead (h _ s hrun howner)
    . intro hcondition labels s hrun howner
      cases hdestroys : program.destroys with
      | false => exact absurd howner (run_not_destroyed hdestroys hrun).1
      | true =>
        have ⟨hstarts, hcallback, hloop⟩ := hcondition hdestroys
        cases run_undisturbed ⟨fun _ => hstarts, hcallback, hloop⟩ hrun with
        | inl hquit =>
          rw [howner] at hquit
          contradiction
        | inr h => exact h.loopLives (Or.inr howner)
  . constructor
    . intro h
      by_contra hdestroys
      rw [Bool.not_eq_false] at hdestroys
      have hstarts := hstarted (fun labels s hrun howner => h labels s hrun (Or.inl howner)) hdestroys
      have ⟨s, hrun, howner, hdead⟩ := run_quitInPoll (τ := τ) hdestroys hstarts
      exact hdead (h _ s hrun (Or.inr howner))
    . intro hdestroys labels s hrun howner
      have ⟨hne, hquit⟩ := run_not_destroyed hdestroys hrun
      cases howner with
      | inl howner => contradiction
      | inr howner =>
        rw [howner] at hquit
        contradiction

theorem not_loopLives_eventQuits
    : ∃ s : EventLoopThread Nat,
        run ⟨true, true, false, true⟩
            ([Label.start, .construct, .publish, .testLoop] ++ eventQuits ++ [Label.destroy])
          = some s ∧
        s.owner = .inDestructor ∧ ¬s.LoopLives :=
  run_eventQuits rfl rfl rfl

end EventLoopThread
end Claire
