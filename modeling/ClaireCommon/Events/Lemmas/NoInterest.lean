import ClaireCommon.Events.Lemmas.EPollPoller
import Mathlib.Data.List.Infix
import Mathlib.Data.List.Induction

/-!
This module contains when a channel without events is not in the set of the kernel: `UpdateChannel`
adds a channel that it does not have there, whatever its events are.
-/

namespace Claire
namespace EPollPoller

variable {χ : Type} {ndebug : Bool} {fd : χ → Nat} {p p' : EPollPoller χ} {c : χ}

def Unpolled (fd : χ → Nat) (p : EPollPoller χ) : Prop :=
  ∀ c, (p.channel c).isNoneEvent → p.epoll (fd c) = none

theorem unpolled_init : Unpolled fd (init : EPollPoller χ) := by
  intro c _
  rfl

theorem unpolled_iff (hinv : Inv fd p)
    : Unpolled fd p ↔
        ∀ c, (p.channel c).context = .kAdded → (p.channel c).events ≠ Channel.kNoneEvent := by
  constructor
  . intro h c hadded hnone
    have hepoll := h c (decide_eq_true hnone)
    rw [hinv.epoll_eq_some hadded] at hepoll
    contradiction
  . intro h c hnone
    apply hinv.epoll_eq_none
    intro hadded
    exact h c hadded (of_decide_eq_true hnone)

def Quiet (p : EPollPoller χ) : Prop :=
  ∀ c, (p.channel c).context ≠ .kAdded → (p.channel c).events = Channel.kNoneEvent

theorem Polled.quiet (h : Polled p p') (hquiet : Quiet p) : Quiet p' := by
  intro c hc
  rw [h.context_eq] at hc
  rw [h.channel_eq]
  exact hquiet c hc

theorem Polled.unpolled_iff (h : Polled p p') : Unpolled fd p' ↔ Unpolled fd p := by
  have hnone (c : χ) : (p'.channel c).isNoneEvent = (p.channel c).isNoneEvent := by
    rw [h.channel_eq]
    rfl
  simp only [Unpolled, hnone, h.epoll_eq]

def Disables (a : Label χ) (c : χ) : Prop :=
  a = .disableReading c ∨ a = .disableWriting c ∨ a = .disableAll c

theorem or_kReadEvent_ne (events : EventMask) : events ||| Channel.kReadEvent ≠ Channel.kNoneEvent := by
  intro h
  have hbit := congrArg (fun mask : EventMask => mask[0]) h
  simp [Channel.kReadEvent, Channel.pollIn, Channel.pollPri, Channel.kNoneEvent] at hbit

theorem or_kWriteEvent_ne (events : EventMask) : events ||| Channel.kWriteEvent ≠ Channel.kNoneEvent := by
  intro h
  have hbit := congrArg (fun mask : EventMask => mask[2]) h
  simp [Channel.kWriteEvent, Channel.pollOut, Channel.kNoneEvent] at hbit

structure UnpolledStep (p p' : EPollPoller χ) (fd : χ → Nat) (a : Label χ) : Prop where
  quiet : Quiet p'
  unpolled_iff : Unpolled fd p' ↔ ∀ c, Disables a c → (p.channel c).events ≠ Channel.kNoneEvent

theorem unpolledStep_of_kept {a : Label χ} (hquiet : Quiet p') (hunpolled : Unpolled fd p')
    (ha : ∀ d, ¬Disables a d) : UnpolledStep p p' fd a := by
  refine ⟨hquiet, ?_⟩
  constructor
  . intro _ d hd
    exact absurd hd (ha d)
  . intro _
    exact hunpolled

variable [DecidableEq χ] {as : List (Label χ)} {a : Label χ}

theorem nextContext_eq_kAdded {context : Channel.Context} {events : EventMask}
    : nextContext context events = .kAdded ↔ ¬(context = .kAdded ∧ events = Channel.kNoneEvent) := by
  unfold nextContext
  split <;> simp [*]

theorem quiet_of_update {events : EventMask} (hquiet : Quiet p)
    (heffect : Effect fd p p' c { p.channel c with
      events := events, context := nextContext (p.channel c).context events }) : Quiet p' := by
  intro d hd
  rw [heffect.channel_eq] at hd ⊢
  by_cases hdc : d = c
  . rw [hdc, Function.update_self] at hd ⊢
    rw [ne_eq, nextContext_eq_kAdded, not_not] at hd
    exact hd.2
  . rw [Function.update_of_ne hdc] at hd ⊢
    exact hquiet d hd

theorem unpolled_of_update {events : EventMask} (hinv : Inv fd p) (hinv' : Inv fd p')
    (heffect : Effect fd p p' c { p.channel c with
      events := events, context := nextContext (p.channel c).context events })
    (hunpolled : Unpolled fd p)
    : Unpolled fd p' ↔ (events = Channel.kNoneEvent → (p.channel c).context = .kAdded) := by
  rw [unpolled_iff hinv']
  rw [unpolled_iff hinv] at hunpolled
  constructor
  . intro h hnone
    by_contra hne
    apply h c
    . rw [heffect.channel_eq, Function.update_self, nextContext_eq_kAdded]
      exact fun h => hne h.1
    . rw [heffect.channel_eq, Function.update_self]
      exact hnone
  . intro h d hadded hnone
    rw [heffect.channel_eq] at hadded hnone
    by_cases hdc : d = c
    . rw [hdc, Function.update_self] at hadded hnone
      rw [nextContext_eq_kAdded] at hadded
      exact hadded ⟨h hnone, hnone⟩
    . rw [Function.update_of_ne hdc] at hadded hnone
      exact hunpolled d hadded hnone

section Update

variable {events : EventMask} (h : RunInv fd as p) (hfd : Function.Injective fd)
  (hpermitted : (∀ a ∈ as, a.channel? ≠ some c) → fd c < 2 * p.channels.length)
  (hstep : p.updateEvents ndebug fd c events = .ok p') (hquiet : Quiet p) (hunpolled : Unpolled fd p)

include h hfd hpermitted hstep hquiet hunpolled

theorem updated
    : Quiet p' ∧ (Unpolled fd p' ↔ (events = Channel.kNoneEvent → (p.channel c).context = .kAdded)) := by
  have ⟨q, hq, _, heffect⟩ := updateEvents_spec ndebug h.inv (fun _ => h.fits_of_permitted hpermitted) events
  rw [hstep] at hq
  injection hq with hq
  rw [← hq] at heffect
  exact ⟨quiet_of_update hquiet heffect,
    unpolled_of_update h.inv (heffect.inv hfd h.inv) heffect hunpolled⟩

theorem unpolledStep_of_enable (hne : events ≠ Channel.kNoneEvent) (ha : ∀ d, ¬Disables a d)
    : UnpolledStep p p' fd a := by
  have ⟨hquiet', hiff⟩ := updated h hfd hpermitted hstep hquiet hunpolled
  refine ⟨hquiet', ?_⟩
  rw [hiff]
  constructor
  . intro _ d hd
    exact absurd hd (ha d)
  . intro _ hnone
    exact absurd hnone hne

theorem unpolledStep_of_disable
    (hnone : (p.channel c).events = Channel.kNoneEvent → events = Channel.kNoneEvent)
    (ha : ∀ d, Disables a d ↔ d = c) : UnpolledStep p p' fd a := by
  have ⟨hquiet', hiff⟩ := updated h hfd hpermitted hstep hquiet hunpolled
  refine ⟨hquiet', ?_⟩
  rw [hiff]
  rw [unpolled_iff h.inv] at hunpolled
  constructor
  . intro hadded d hd hevents
    rw [(ha d).mp hd] at hevents
    exact hunpolled c (hadded (hnone hevents)) hevents
  . intro hdisables _
    by_contra hne
    exact hdisables c ((ha c).mpr rfl) (hquiet c hne)

end Update

theorem unpolledStep_of_remove (h : RunInv fd as p) (hfd : Function.Injective fd)
    (hpermitted : MayRemove fd p c) (hstep : p.removeChannel ndebug fd c = .ok p') (hquiet : Quiet p)
    (hunpolled : Unpolled fd p) : UnpolledStep p p' fd (.remove c) := by
  have ⟨q, hq, _, heffect⟩ := removeChannel_spec ndebug h.inv hpermitted
  rw [hstep] at hq
  injection hq with hq
  rw [← hq] at heffect
  have hinv := heffect.inv hfd h.inv
  apply unpolledStep_of_kept
  . intro d hd
    rw [heffect.channel_eq] at hd ⊢
    by_cases hdc : d = c
    . rw [hdc, Function.update_self]
      exact of_decide_eq_true hpermitted.isNoneEvent
    . rw [Function.update_of_ne hdc] at hd ⊢
      exact hquiet d hd
  . rw [unpolled_iff h.inv] at hunpolled
    rw [unpolled_iff hinv]
    intro d hadded
    rw [heffect.channel_eq] at hadded ⊢
    by_cases hdc : d = c
    . rw [hdc, Function.update_self] at hadded
      contradiction
    . rw [Function.update_of_ne hdc] at hadded ⊢
      exact hunpolled d hadded
  . intro d
    simp [Disables]

theorem unpolledStep_of_poll {result : Except Epoll.Errno (List EPollEvent)} (h : RunInv fd as p)
    (hpermitted : Permitted fd as p (.poll result)) (hstep : p.step ndebug fd (.poll result) = .ok p')
    (hquiet : Quiet p) (hunpolled : Unpolled fd p) : UnpolledStep p p' fd (.poll result) := by
  have hpolled : Polled p p' := by
    cases result with
    | ok events =>
      have ⟨q, activeChannels, hpoll, hpolled, _⟩ := poll_spec ndebug h.inv hpermitted
      have hq : p.step ndebug fd (.poll (.ok events)) = .ok q := by
        simp only [EPollPoller.step, hpoll, bind, Except.bind, pure, Except.pure]
      rw [hstep] at hq
      injection hq with hq
      rw [hq]
      exact hpolled
    | error errno =>
      have hq : p.step ndebug fd (.poll (.error errno)) = .ok p := by
        rw [hpermitted]
        rfl
      rw [hstep] at hq
      injection hq with hq
      rw [hq]
      exact Polled.refl p
  apply unpolledStep_of_kept (hpolled.quiet hquiet) (hpolled.unpolled_iff.mpr hunpolled)
  intro d
  simp [Disables]

theorem unpolledStep (h : RunInv fd as p) (hfd : Function.Injective fd)
    (hpermitted : Permitted fd as p a) (hstep : p.step ndebug fd a = .ok p') (hquiet : Quiet p)
    (hunpolled : Unpolled fd p) : UnpolledStep p p' fd a := by
  cases a with
  | enableReading c =>
    apply unpolledStep_of_enable h hfd hpermitted hstep hquiet hunpolled (or_kReadEvent_ne _)
    simp [Disables]
  | enableWriting c =>
    apply unpolledStep_of_enable h hfd hpermitted hstep hquiet hunpolled (or_kWriteEvent_ne _)
    simp [Disables]
  | disableReading c =>
    apply unpolledStep_of_disable h hfd hpermitted hstep hquiet hunpolled
    . intro hnone
      rw [hnone]
      rfl
    . simp [Disables, eq_comm]
  | disableWriting c =>
    apply unpolledStep_of_disable h hfd hpermitted hstep hquiet hunpolled
    . intro hnone
      rw [hnone]
      rfl
    . simp [Disables, eq_comm]
  | disableAll c =>
    apply unpolledStep_of_disable h hfd hpermitted hstep hquiet hunpolled
    . intro _
      rfl
    . simp [Disables, eq_comm]
  | remove c => exact unpolledStep_of_remove h hfd hpermitted hstep hquiet hunpolled
  | poll result => exact unpolledStep_of_poll h hpermitted hstep hquiet hunpolled

theorem Runs.of_concat (h : Runs ndebug fd (as ++ [a]) p')
    : ∃ p, Runs ndebug fd as p ∧ Permitted fd as p a ∧ p.step ndebug fd a = .ok p' := by
  generalize heq : as ++ [a] = labels at h
  cases h with
  | init =>
    have := congrArg List.length heq
    simp at this
  | step hrun hpermitted hstep =>
    have ⟨has, ha⟩ := List.append_inj' heq rfl
    injection ha with ha
    subst has ha
    exact ⟨_, hrun, hpermitted, hstep⟩

theorem Runs.eq_init (h : Runs ndebug fd [] p) : p = EPollPoller.init := by
  generalize heq : ([] : List (Label χ)) = labels at h
  cases h with
  | init => rfl
  | step =>
    have := congrArg List.length heq
    simp at this

theorem Runs.unique (h : Runs ndebug fd as p) (h' : Runs ndebug fd as p') : p = p' := by
  induction as using List.reverseRecOn generalizing p p' with
  | nil => rw [h.eq_init, h'.eq_init]
  | append_singleton as a ih =>
    have ⟨m, hm, _, hstep⟩ := h.of_concat
    have ⟨m', hm', _, hstep'⟩ := h'.of_concat
    rw [← ih hm hm', hstep] at hstep'
    injection hstep'

theorem quiet_of_runs (hfd : Function.Injective fd) (hruns : Runs ndebug fd as p)
    (h : ∀ before q, before <+: as → Runs ndebug fd before q → Unpolled fd q) : Quiet p := by
  induction hruns with
  | init =>
    intro c _
    rfl
  | @step as p p' a hrun hpermitted hstep ih =>
    have hquiet := ih (by
      intro before q hbegins
      exact h before q (hbegins.trans (List.prefix_append _ _)))
    have hunpolled := h as p (List.prefix_append _ _) hrun
    exact (unpolledStep (hrun.inv hfd) hfd hpermitted hstep hquiet hunpolled).quiet

end EPollPoller
end Claire
