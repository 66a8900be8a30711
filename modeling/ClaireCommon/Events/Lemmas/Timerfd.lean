import ClaireCommon.Events.Lemmas.TimeoutQueue
import ClaireCommon.Events.Lemmas.Timespec

/-!
This module contains the proof that the timerfd of the queue is always armed for its earliest event.
-/

namespace Claire

universe u

variable {κ : Type u}

theorem howMuchTimeFromNow_microSeconds (when now : Int)
    : (howMuchTimeFromNow when now).microSeconds = max 100 (int64 (when - now)) :=
  (howMuchTimeFromNow_represents when now).microSeconds

theorem howMuchTimeFromNow_ne_zero (when now : Int) : howMuchTimeFromNow when now ≠ ⟨0, 0⟩ := by
  intro h
  have := howMuchTimeFromNow_microSeconds when now
  rw [h] at this
  simp only [Timespec.microSeconds] at this
  omega

@[simp]
theorem arming?_resetTimerfd (expiration clock : Int)
    : (resetTimerfd expiration clock).arming?
        =
      some ⟨expiration, clock, howMuchTimeFromNow expiration clock⟩ := by
  unfold resetTimerfd TimerFd.setTime
  rw [if_neg]
  . rfl
  . apply howMuchTimeFromNow_ne_zero

def Arming.wake (a : Arming) : Int := a.clock + a.value.microSeconds

namespace TimeoutQueue

theorem nextExpiration_le {q : TimeoutQueue κ} {e : Event κ} (he : e ∈ q.timeouts)
    : q.nextExpiration ≤ e.expiration := by
  unfold nextExpiration
  split
  . next hfirst =>
    rw [OrderedSet.first?_eq_none] at hfirst
    rw [OrderedSet.mem_def, hfirst] at he
    contradiction
  . next event hfirst =>
    exact OrderedSet.rank_first?_le hfirst he

theorem nextExpiration_mem {q : TimeoutQueue κ} (h : q.nextExpiration < int64Max)
    : ∃ e ∈ q.timeouts, e.expiration = q.nextExpiration := by
  unfold nextExpiration at h ⊢
  split at h
  . omega
  . next event hfirst =>
    exact ⟨event, OrderedSet.mem_of_first? hfirst, rfl⟩

theorem nextExpiration_lt_max {q : TimeoutQueue κ} (hne : q.timeouts.elems ≠ [])
    (hmax : ∀ e ∈ q.timeouts, e.expiration < int64Max) : q.nextExpiration < int64Max := by
  cases helems : q.timeouts.elems with
  | nil => contradiction
  | cons e es =>
    have he : e ∈ q.timeouts := by
      rw [OrderedSet.mem_def, helems]
      exact List.mem_cons_self
    have := nextExpiration_le he
    have := hmax e he
    omega

-- The last call of `ResetTimerfd` is still in force and early enough
def Armed (q : TimeoutQueue κ) : Prop :=
  ∃ a, q.timerFd.arming? = some a ∧ a.expiration ≤ q.nextExpiration
    ∧ a.value = howMuchTimeFromNow a.expiration a.clock

def ArmedWhenIdle (q : TimeoutQueue κ) : Prop :=
  q.phase = .idle → q.nextExpiration < int64Max → Armed q

theorem armed_of_resetTimerfd {q : TimeoutQueue κ} (clock : Int)
    (h : q.timerFd = resetTimerfd q.nextExpiration clock) : Armed q := by
  refine ⟨_, by rw [h, arming?_resetTimerfd], ?_, rfl⟩
  apply le_refl

theorem armed_of_le {q q' : TimeoutQueue κ} (hfd : q'.timerFd.arming? = q.timerFd.arming?)
    (hle : q.nextExpiration ≤ q'.nextExpiration) (harmed : Armed q) : Armed q' := by
  have ⟨a, ha, hexpiration, hvalue⟩ := harmed
  refine ⟨a, by rw [hfd, ha], ?_, hvalue⟩
  omega

theorem armedWhenIdle_addInLoop {q : TimeoutQueue κ} (h : ArmedWhenIdle q) (event : Event κ)
    (clock : Int) : ArmedWhenIdle (q.addInLoop event clock) := by
  intro hphase hmax
  rw [addInLoop_phase] at hphase
  by_cases hreset : event.expiration < q.nextExpiration
  . apply armed_of_resetTimerfd clock
    simp only [addInLoop, if_pos hreset]
    rfl
  . have hfd : (q.addInLoop event clock).timerFd = q.timerFd := by
      simp [addInLoop, hreset]
    -- the new event is not earlier, so the earliest event did not get earlier
    have hle : q.nextExpiration ≤ (q.addInLoop event clock).nextExpiration := by
      have ⟨e, he, heq⟩ := nextExpiration_mem hmax
      rw [addInLoop_timeouts] at he
      cases OrderedSet.eq_or_mem_of_mem_insert he with
      | inl hevent =>
        rw [hevent] at heq
        omega
      | inr he =>
        have := nextExpiration_le he
        omega
    apply armed_of_le _ hle
    . apply h hphase
      omega
    . rw [hfd]

theorem armedWhenIdle_cancelInLoop {q : TimeoutQueue κ} (h : ArmedWhenIdle q) (id : Int)
    : ArmedWhenIdle (q.cancelInLoop id) := by
  intro hphase hmax
  have hle : q.nextExpiration ≤ (q.cancelInLoop id).nextExpiration := by
    have ⟨e, he, heq⟩ := nextExpiration_mem hmax
    have := nextExpiration_le (OrderedSet.mem_erase.mp he).1
    omega
  apply armed_of_le _ hle
  . apply h hphase
    omega
  . rfl

theorem armedWhenIdle_step {q q' : TimeoutQueue κ} {l : Label κ} (harmed : ArmedWhenIdle q)
    (h : step q l = some q') : ArmedWhenIdle q' := by
  cases l with
  | add id expiration callback =>
    obtain ⟨-, rfl⟩ := step_add h
    exact harmed
  | addRepeating id now interval callback =>
    obtain ⟨-, rfl⟩ := step_addRepeating h
    exact harmed
  | addInLoop id clock =>
    obtain ⟨event, -, rfl⟩ := step_addInLoop h
    apply armedWhenIdle_addInLoop
    exact harmed
  | cancelInLoop id =>
    obtain rfl := step_cancelInLoop h
    exact armedWhenIdle_cancelInLoop harmed id
  | expire =>
    obtain ⟨arming, hfd, rfl⟩ := step_expire h
    intro hphase hmax
    refine armed_of_le ?_ ?_ (harmed hphase hmax)
    . rw [hfd]
      rfl
    . apply le_refl
  | runStart now =>
    obtain ⟨-, rfl⟩ := step_runStart h
    intro hphase
    contradiction
  | execute id =>
    obtain ⟨_, _, _, _, _, _, rfl⟩ := step_execute h
    intro hphase
    contradiction
  | runEnd clock =>
    obtain ⟨_, _, _, rfl⟩ := step_runEnd h
    intro _ _
    apply armed_of_resetTimerfd clock
    rfl

theorem armedWhenIdle_run {q : TimeoutQueue κ} {ls : List (Label κ)} (h : run init ls = some q)
    : ArmedWhenIdle q := by
  apply Machine.run_invariant _ _ h
  . intro q l q' harmed hstep
    exact armedWhenIdle_step harmed hstep
  . intro _ hmax
    simp [init, nextExpiration, OrderedSet.first?] at hmax

theorem wake_le_of_armed {a : Arming} {next : Int}
    (hvalue : a.value = howMuchTimeFromNow a.expiration a.clock) (hle : a.expiration ≤ next)
    (hlo : -2 ^ 63 ≤ a.expiration - a.clock) (hhi : a.expiration - a.clock < 2 ^ 63)
    : a.wake ≤ next ∨ (next < a.clock + 100 ∧ a.wake ≤ a.clock + 100) := by
  have hwake : a.wake = a.clock + max 100 (a.expiration - a.clock) := by
    unfold Arming.wake
    rw [hvalue, howMuchTimeFromNow_microSeconds, int64_of_range hlo hhi]
  omega

theorem timerfd_armed_for_earliest {q : TimeoutQueue κ} {ls : List (Label κ)}
    (h : run init ls = some q) (hidle : q.phase = .idle) (hne : q.timeouts.elems ≠ [])
    (hmax : ∀ e ∈ q.timeouts, e.expiration < int64Max)
    : ∃ a, q.timerFd.arming? = some a
        ∧ a.expiration ≤ q.nextExpiration
        ∧ (-2 ^ 63 ≤ a.expiration - a.clock → a.expiration - a.clock < 2 ^ 63 →
            a.wake ≤ q.nextExpiration
              ∨
            (q.nextExpiration < a.clock + 100 ∧ a.wake ≤ a.clock + 100)) := by
  have hnext := nextExpiration_lt_max hne hmax
  have ⟨a, ha, hle, hvalue⟩ := armedWhenIdle_run h hidle hnext
  refine ⟨a, ha, hle, ?_⟩
  intro hlo hhi
  exact wake_le_of_armed hvalue hle hlo hhi

theorem timerfd_armed_for_earliest_two_timers
    : ∃ q : TimeoutQueue Unit,
        run init [.add 1 900 (), .add 2 700 (), .addInLoop 1 10, .addInLoop 2 20] = some q
          ∧ ∃ a, q.timerFd.arming? = some a ∧ a.expiration ≤ q.nextExpiration
            ∧ (-2 ^ 63 ≤ a.expiration - a.clock → a.expiration - a.clock < 2 ^ 63 →
                a.wake ≤ q.nextExpiration
                  ∨
                (q.nextExpiration < a.clock + 100 ∧ a.wake ≤ a.clock + 100)) := by
  refine ⟨_, rfl, ?_⟩
  apply timerfd_armed_for_earliest
  . exact (rfl : run init [.add 1 900 (), .add 2 700 (), .addInLoop 1 10, .addInLoop 2 20] = _)
  . rfl
  . decide
  . decide

-- Woken at the earliest expiration, or 100 microseconds after arming if that one is past already
def WokenInTime (q : TimeoutQueue κ) : Prop :=
  ∃ a, q.timerFd.arming? = some a ∧ a.expiration ≤ q.nextExpiration
    ∧ (a.wake ≤ q.nextExpiration ∨ (q.nextExpiration ≤ a.clock ∧ a.wake ≤ a.clock + 100))

/-
An expiration that is 50 microseconds ahead is served after 100 microseconds, and one whose distance
from the clock overflows is not served for ages.
-/
theorem not_woken_in_time
    : (∃ q : TimeoutQueue Unit, run init [.add 1 50 (), .addInLoop 1 0] = some q
        ∧ q.phase = .idle ∧ q.timeouts.elems ≠ []
        ∧ (∀ e ∈ q.timeouts, e.expiration < int64Max) ∧ ¬ WokenInTime q)
        ∧
      (∃ q : TimeoutQueue Unit, run init [.add 1 (-2 ^ 63) (), .addInLoop 1 1] = some q
        ∧ q.phase = .idle ∧ q.timeouts.elems ≠ []
        ∧ (∀ e ∈ q.timeouts, e.expiration < int64Max) ∧ ¬ WokenInTime q) := by
  constructor
  . refine ⟨_, rfl, rfl, by decide, by decide, ?_⟩
    intro h
    have ⟨a, ha, _, hwake⟩ := h
    cases ha
    revert hwake
    decide
  . refine ⟨_, rfl, rfl, by decide, by decide, ?_⟩
    intro h
    have ⟨a, ha, _, hwake⟩ := h
    cases ha
    revert hwake
    decide

end TimeoutQueue
end Claire
