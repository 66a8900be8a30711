import ClaireCommon.Threading.Impl.Thread

/-!
This module contains that a `Thread` and the thread it starts never use anything that is gone, and leave
nothing behind: whatever order their steps come in, and whichever of the two ends first.
-/

namespace Claire
namespace Thread

variable {ndebug : Bool} {tid : Int} {s s' : Thread} {pthread : Pthread}

def Outcome.Satisfies {σ : Type} (P : σ → Prop) : Outcome σ → Prop
  | .next s => P s
  | .stop | .disabled => True
  | .undefined => False

-- The local variable `tid` of `RunInThread` owns the cell.
def Place.owners : Place → Nat
  | store | reset => 1
  | _ => 0

def Place.stored : Place → Bool
  | lock | store => false
  | _ => true

def Place.needsPriv : Place → Bool
  | leave | returned => false
  | _ => true

-- The name of the thread may be the one in `Priv`.
def Place.named : Place → Bool
  | entry | setFinished => true
  | _ => false

def Phase.owners : Phase → Nat
  | destroyed => 0
  | _ => 1

structure Pthread.Inv (tid : Int) (s : Thread) (pthread : Pthread) : Prop where
  phase : s.phase ≠ .creating
  started : s.started
  priv : s.priv = pthread.place.needsPriv
  owners : s.tidCell.owners = s.phase.owners + pthread.place.owners
  value : ∀ v, s.tidCell.value = some v → v = if pthread.place.stored then tid else 0
  joined_iff : pthread.joined ↔ s.joined ∧ s.phase ≠ .joining
  detached_iff : pthread.detached ↔ s.phase = .destroyed ∧ s.joined = false
  returned : pthread.joined → pthread.place = .returned
  named : pthread.threadName = .ofPriv → pthread.place.named

structure NotCreated (s : Thread) : Prop where
  started_iff : s.started ↔ s.phase = .creating
  priv_iff : s.priv ↔ s.phase = .creating
  joined : s.joined = false
  owners : s.tidCell.owners = s.phase.owners
  value : ∀ v, s.tidCell.value = some v → v = 0

structure Inv (tid : Int) (s : Thread) : Prop where
  observers : s.tidCell.observers = if s.priv then 1 else 0
  joining : s.phase = .joining → s.joined
  created : ∀ pthread, s.pthread = some pthread → pthread.Inv tid s
  notCreated : s.pthread = none → NotCreated s

theorem Pthread.Inv.not_named (h : pthread.Inv tid s) (hplace : pthread.place.named = false)
    {P : Prop} (hname : pthread.threadName = .ofPriv) : P := by
  have := h.named hname
  rw [hplace] at this
  contradiction

theorem inv_init : Inv tid init where
  observers := rfl
  joining := fun h => by contradiction
  created := fun _ h => by contradiction
  notCreated := fun _ => by
    constructor
    . simp [init]
    . simp [init]
    . rfl
    . rfl
    . intro v h
      injection h with h
      exact h.symm

theorem Inv.of_created (h : s.pthread = some pthread)
    (hobservers : s.tidCell.observers = if s.priv then 1 else 0) (hjoining : s.phase = .joining → s.joined)
    (hcreated : pthread.Inv tid s) : Inv tid s where
  observers := hobservers
  joining := hjoining
  created := by
    intro pthread' h'
    rw [h] at h'
    injection h' with heq
    rw [← heq]
    exact hcreated
  notCreated := by
    intro h'
    rw [h] at h'
    contradiction

theorem Inv.of_notCreated (h : s.pthread = none)
    (hobservers : s.tidCell.observers = if s.priv then 1 else 0) (hjoining : s.phase = .joining → s.joined)
    (hnotCreated : NotCreated s) : Inv tid s where
  observers := hobservers
  joining := hjoining
  created := by
    intro pthread' h'
    rw [h] at h'
    contradiction
  notCreated := fun _ => hnotCreated

theorem Inv.cell_lives (hinv : Inv tid s) (hphase : s.phase ≠ .destroyed) : 0 < s.tidCell.owners := by
  have hone : s.phase.owners = 1 := by
    cases hcase : s.phase <;> first | rfl | contradiction
  cases h : s.pthread with
  | none =>
    have := (hinv.notCreated h).owners
    omega
  | some pthread =>
    have := (hinv.created pthread h).owners
    omega

theorem Inv.start (hinv : Inv tid s) (hphase : s.phase = .idle) : Inv tid s.start := by
  unfold Thread.start
  split
  . exact hinv
  . next hstarted =>
    have hnone : s.pthread = none := by
      cases h : s.pthread with
      | none => rfl
      | some pthread => exact absurd (hinv.created pthread h).started hstarted
    have hnot := hinv.notCreated hnone
    have hpriv : s.priv = false := by
      have := hnot.priv_iff
      rw [hphase] at this
      simpa using this
    have hobservers := hinv.observers
    rw [hpriv] at hobservers
    refine Inv.of_notCreated hnone ?_ ?_ ?_
    . simpa [Shared.observe] using hobservers
    . intro h
      contradiction
    . constructor
      . simp
      . simp
      . exact hnot.joined
      . have := hnot.owners
        rw [hphase] at this
        exact this
      . exact hnot.value

theorem Inv.create (hinv : Inv tid s) (hphase : s.phase = .creating) (success : Bool)
    : (s.create success).Satisfies (Inv tid) := by
  have hnone : s.pthread = none := by
    cases h : s.pthread with
    | none => rfl
    | some pthread => exact absurd hphase (hinv.created pthread h).phase
  have hnot := hinv.notCreated hnone
  unfold Thread.create
  cases success with
  | false => trivial
  | true =>
    show Inv tid _
    refine Inv.of_created rfl hinv.observers ?_ ?_
    . intro h
      contradiction
    . constructor
      . simp
      . exact hnot.started_iff.mpr hphase
      . exact hnot.priv_iff.mpr hphase
      . have := hnot.owners
        rw [hphase] at this
        exact this
      . exact hnot.value
      . simp [hnot.joined]
      . simp
      . intro h
        contradiction
      . intro h
        contradiction

-- What the `DCHECK`s of `Join` ask for, a build with them asks itself.
def Permits (ndebug : Bool) (s : Thread) (a : Label) : Prop :=
  ndebug = true → a = .join → s.started ∧ ¬s.joined

theorem Permits.of_ne {a : Label} (h : a ≠ .join) : s.Permits ndebug a :=
  fun _ ha => absurd ha h

theorem join_eq_next (h : s.join ndebug = .next s')
    : (ndebug = false → s.started ∧ ¬s.joined) ∧ s' = { s with joined := true, phase := .joining } := by
  unfold Thread.join at h
  cases ndebug with
  | true =>
    injection h with h
    exact ⟨fun hdcheck => by contradiction, h.symm⟩
  | false =>
    split at h
    . contradiction
    . next hstarted =>
      split at h
      . contradiction
      . next hjoined =>
        injection h with h
        exact ⟨fun _ => ⟨by simpa using hstarted, by simpa using hjoined⟩, h.symm⟩

theorem Permits.mayJoin (hpermits : s.Permits ndebug .join) (h : s.join ndebug = .next s')
    : s.started ∧ ¬s.joined := by
  cases hndebug : ndebug with
  | true => exact hpermits hndebug rfl
  | false => exact (join_eq_next h).1 hndebug

theorem Outcome.satisfies_of_next {σ : Type} {P : σ → Prop} {r : Outcome σ} (hundefined : r ≠ .undefined)
    (h : ∀ s, r = .next s → P s) : r.Satisfies P := by
  cases r with
  | next s => exact h s rfl
  | undefined => contradiction
  | _ => trivial

theorem join_ne_undefined : s.join ndebug ≠ .undefined := by
  unfold Thread.join
  split
  . simp
  . split <;> simp

theorem Inv.join (hinv : Inv tid s) (hphase : s.phase = .idle) (hpermits : s.Permits ndebug .join)
    : (s.join ndebug).Satisfies (Inv tid) := by
  apply Outcome.satisfies_of_next join_ne_undefined
  intro s' hnext
  have ⟨hstarted, hjoined⟩ := hpermits.mayJoin hnext
  rw [(join_eq_next hnext).2]
  cases h : s.pthread with
  | none =>
    have := (hinv.notCreated h).started_iff
    rw [hphase] at this
    simp_all
  | some pthread =>
    have hcreated := hinv.created pthread h
    have hnot : pthread.joined = false := by
      simpa [hjoined] using hcreated.joined_iff
    show Inv tid _
    refine Inv.of_created rfl hinv.observers (fun _ => rfl) ?_
    constructor
    . simp
    . exact hcreated.started
    . exact hcreated.priv
    . have := hcreated.owners
      rw [hphase] at this
      exact this
    . exact hcreated.value
    . simp [hnot]
    . have := hcreated.detached_iff
      rw [hphase] at this
      simpa using this
    . simp [hnot]
    . exact hcreated.named

theorem Inv.pthreadJoin (hinv : Inv tid s) (hphase : s.phase = .joining)
    : s.pthreadJoin.Satisfies (Inv tid) := by
  have hjoined := hinv.joining hphase
  unfold Thread.pthreadJoin
  split
  . next h =>
    have := (hinv.notCreated h).joined
    rw [hjoined] at this
    contradiction
  . next pthread h =>
    have hcreated := hinv.created pthread h
    split
    . next hreaped =>
      have hjoined := hcreated.joined_iff
      have hdetached := hcreated.detached_iff
      simp_all
    . split
      . next hplace =>
        show Inv tid _
        refine Inv.of_created rfl hinv.observers ?_ ?_
        . intro h
          contradiction
        . constructor
          . simp
          . exact hcreated.started
          . exact hcreated.priv
          . have := hcreated.owners
            rw [hphase] at this
            exact this
          . exact hcreated.value
          . simp [hjoined]
          . have := hcreated.detached_iff
            rw [hphase] at this
            simpa using this
          . exact fun _ => hplace
          . exact hcreated.named
      . trivial

theorem Inv.destroyed (hinv : Inv tid s) (hphase : s.phase = .idle) {tidCell : Shared Int}
    (hvalue : ∀ v, tidCell.value = some v → s.tidCell.value = some v)
    (howners : tidCell.owners + 1 = s.tidCell.owners) (hobservers : tidCell.observers = s.tidCell.observers)
    (hcreated : ∀ pthread, s.pthread = some pthread → s.joined)
    : Inv tid { s with tidCell := tidCell, phase := .destroyed } := by
  cases h : s.pthread with
  | none =>
    have hnot := hinv.notCreated h
    refine Inv.of_notCreated rfl (hobservers.trans hinv.observers) ?_ ?_
    . intro h
      contradiction
    . constructor
      . simpa [hphase] using hnot.started_iff
      . simpa [hphase] using hnot.priv_iff
      . exact hnot.joined
      . have := hnot.owners
        rw [hphase] at this
        simp only [Phase.owners] at this ⊢
        omega
      . exact fun v hv => hnot.value v (hvalue v hv)
  | some pthread =>
    have hthread := hinv.created pthread h
    have hjoined := hcreated pthread h
    refine Inv.of_created rfl (hobservers.trans hinv.observers) ?_ ?_
    . intro h
      contradiction
    . constructor
      . simp
      . exact hthread.started
      . exact hthread.priv
      . have := hthread.owners
        rw [hphase] at this
        simp only [Phase.owners] at this ⊢
        omega
      . exact fun v hv => hthread.value v (hvalue v hv)
      . simpa [hphase] using hthread.joined_iff
      . simpa [hphase, hjoined] using hthread.detached_iff
      . exact hthread.returned
      . exact hthread.named

theorem Inv.detached (hinv : Inv tid s) (hphase : s.phase = .idle) (h : s.pthread = some pthread)
    (hjoined : s.joined = false) {tidCell : Shared Int}
    (hvalue : ∀ v, tidCell.value = some v → s.tidCell.value = some v)
    (howners : tidCell.owners + 1 = s.tidCell.owners) (hobservers : tidCell.observers = s.tidCell.observers)
    : Inv tid { s with
        tidCell := tidCell, phase := .destroyed, pthread := some { pthread with detached := true } } := by
  have hthread := hinv.created pthread h
  refine Inv.of_created rfl (hobservers.trans hinv.observers) ?_ ?_
  . intro h
    contradiction
  . constructor
    . simp
    . exact hthread.started
    . exact hthread.priv
    . have := hthread.owners
      rw [hphase] at this
      simp only [Phase.owners] at this ⊢
      omega
    . exact fun v hv => hthread.value v (hvalue v hv)
    . simpa [hjoined] using hthread.joined_iff
    . simp [hjoined]
    . exact hthread.returned
    . exact hthread.named

theorem Inv.exists_destroy (hinv : Inv tid s) (hphase : s.phase = .idle)
    : ∃ s', s.destroy = some s' ∧ Inv tid s' := by
  have hlives := hinv.cell_lives (by simp [hphase])
  have ⟨tidCell, hrelease, hvalue, howners, hobservers⟩ := Shared.exists_release hlives
  cases h : s.pthread with
  | none =>
    have hstarted : s.started = false := by
      simpa [hphase] using (hinv.notCreated h).started_iff
    refine ⟨{ s with tidCell := tidCell, phase := .destroyed }, ?_, ?_⟩
    . simp [Thread.destroy, hstarted, hrelease]
    . apply hinv.destroyed hphase hvalue howners hobservers
      intro pthread h'
      rw [h] at h'
      contradiction
  | some pthread =>
    have hthread := hinv.created pthread h
    cases hjoined : s.joined with
    | true =>
      refine ⟨{ s with tidCell := tidCell, phase := .destroyed }, ?_, ?_⟩
      . simp [Thread.destroy, hjoined, hrelease]
      . exact hinv.destroyed hphase hvalue howners hobservers fun _ _ => hjoined
    | false =>
      refine ⟨{ s with
        tidCell := tidCell, phase := .destroyed, pthread := some { pthread with detached := true } }, ?_, ?_⟩
      . have hnot : pthread.joined = false := by
          simpa [hjoined] using hthread.joined_iff
        have hdetached : pthread.detached = false := by
          simpa [hphase] using hthread.detached_iff
        simp [Thread.destroy, Thread.pthreadDetach, hthread.started, hjoined, h, hnot, hdetached, hrelease]
      . exact hinv.detached hphase h hjoined hvalue howners hobservers

theorem Inv.goTo (hinv : Inv tid s) (h : s.pthread = some pthread) (hplace : pthread.place ≠ .returned)
    {place : Place} {threadName : NamePointer} {tidCell : Shared Int} {priv : Bool}
    (hpriv : priv = place.needsPriv) (hobservers : tidCell.observers = if priv then 1 else 0)
    (howners : tidCell.owners = s.phase.owners + place.owners)
    (hvalue : ∀ v, tidCell.value = some v → v = if place.stored then tid else 0)
    (hnamed : threadName = .ofPriv → place.named)
    : Inv tid { s with
        tidCell := tidCell, priv := priv
        pthread := some { pthread with place := place, threadName := threadName } } := by
  have hthread := hinv.created pthread h
  refine Inv.of_created rfl hobservers hinv.joining ?_
  constructor
  . exact hthread.phase
  . exact hthread.started
  . exact hpriv
  . exact howners
  . exact hvalue
  . exact hthread.joined_iff
  . exact hthread.detached_iff
  . exact fun hjoined => absurd (hthread.returned hjoined) hplace
  . exact hnamed

theorem Inv.move (hinv : Inv tid s) (h : s.pthread = some pthread) {before place : Place}
    {threadName : NamePointer} (hplace : pthread.place = before) (hne : before ≠ .returned)
    (hpriv : place.needsPriv = before.needsPriv) (howners : place.owners = before.owners)
    (hstored : (∃ v, s.tidCell.value = some v) → place.stored = before.stored)
    (hnamed : threadName = .ofPriv → place.named)
    : Inv tid { s with pthread := some { pthread with place := place, threadName := threadName } } := by
  have hthread := hinv.created pthread h
  rw [← hplace] at hne hpriv howners hstored
  apply hinv.goTo h hne (hthread.priv.trans hpriv.symm) hinv.observers _ _ hnamed
  . rw [howners]
    exact hthread.owners
  . intro v hv
    rw [hstored ⟨v, hv⟩]
    exact hthread.value v hv

theorem Inv.lockTid (hinv : Inv tid s) (h : s.pthread = some pthread) (hplace : pthread.place = .lock)
    : Inv tid (s.lockTid pthread) := by
  have hthread := hinv.created pthread h
  have howners := hthread.owners
  rw [hplace] at howners
  unfold Thread.lockTid
  by_cases hlives : 0 < s.tidCell.owners
  . have ⟨tidCell, hlock, hvalue, howners', hobservers⟩ := Shared.exists_lock hlives
    rw [hlock]
    apply hinv.goTo h (by simp [hplace]) _ (hobservers.trans hinv.observers)
    . simp only [Place.owners] at howners ⊢
      omega
    . intro v hv
      rw [hvalue] at hv
      have := hthread.value v hv
      rw [hplace] at this
      exact this
    . exact hthread.not_named (by rw [hplace]; rfl)
    . rw [hthread.priv, hplace]
      rfl
  . have hdead : s.tidCell.owners = 0 := by omega
    rw [Shared.lock_eq_none hdead]
    refine hinv.move h hplace (by simp) rfl rfl ?_ (hthread.not_named (by rw [hplace]; rfl))
    intro ⟨v, hv⟩
    rw [Shared.value_eq_none_iff.mpr hdead] at hv
    contradiction

theorem Inv.exists_storeTid (hinv : Inv tid s) (h : s.pthread = some pthread)
    (hplace : pthread.place = .store) : ∃ s', s.storeTid tid pthread = some s' ∧ Inv tid s' := by
  have hthread := hinv.created pthread h
  have howners := hthread.owners
  rw [hplace] at howners
  simp only [Place.owners] at howners
  have ⟨tidCell, hstore, hvalue, howners', hobservers⟩ := Shared.exists_store (s := s.tidCell) (by omega) tid
  refine ⟨{ s with tidCell := tidCell }.goTo pthread .reset, ?_, ?_⟩
  . simp [Thread.storeTid, hstore]
  . apply hinv.goTo h (by simp [hplace]) _ (hobservers.trans hinv.observers)
    . simp only [Place.owners]
      omega
    . intro v hv
      rw [hvalue] at hv
      injection hv with hv
      exact hv.symm
    . exact hthread.not_named (by rw [hplace]; rfl)
    . rw [hthread.priv, hplace]
      rfl

theorem Inv.exists_resetTid (hinv : Inv tid s) (h : s.pthread = some pthread)
    (hplace : pthread.place = .reset) : ∃ s', s.resetTid pthread = some s' ∧ Inv tid s' := by
  have hthread := hinv.created pthread h
  have howners := hthread.owners
  rw [hplace] at howners
  simp only [Place.owners] at howners
  have ⟨tidCell, hrelease, hvalue, howners', hobservers⟩ :=
    Shared.exists_release (s := s.tidCell) (by omega)
  refine ⟨{ s with tidCell := tidCell }.goTo pthread .setName, ?_, ?_⟩
  . simp [Thread.resetTid, hrelease]
  . apply hinv.goTo h (by simp [hplace]) _ (hobservers.trans hinv.observers)
    . simp only [Place.owners]
      omega
    . intro v hv
      have := hthread.value v (hvalue v hv)
      rw [hplace] at this
      exact this
    . exact hthread.not_named (by rw [hplace]; rfl)
    . rw [hthread.priv, hplace]
      rfl

theorem Inv.exists_deletePriv (hinv : Inv tid s) (h : s.pthread = some pthread)
    (hplace : pthread.place = .delete) : ∃ s', s.deletePriv pthread = some s' ∧ Inv tid s' := by
  have hthread := hinv.created pthread h
  have hpriv : s.priv = true := by
    rw [hthread.priv, hplace]
    rfl
  have hone := hinv.observers
  rw [if_pos hpriv] at hone
  have ⟨tidCell, hforget, hvalue, howners, hobservers⟩ :=
    Shared.exists_forget (s := s.tidCell) (by omega)
  refine ⟨{ s with tidCell := tidCell, priv := false }.goTo pthread .leave, ?_, ?_⟩
  . simp [Thread.deletePriv, hforget]
  . refine hinv.goTo h (by simp [hplace]) rfl ?_ ?_ ?_ ?_
    . simp only [Bool.false_eq_true, ↓reduceIte]
      omega
    . rw [howners, hthread.owners, hplace]
      rfl
    . intro v hv
      rw [hvalue] at hv
      have := hthread.value v hv
      rw [hplace] at this
      exact this
    . exact hthread.not_named (by rw [hplace]; rfl)

theorem Outcome.satisfies_ofOption {σ : Type} {P : σ → Prop} {r : Option σ} (h : ∃ s, r = some s ∧ P s)
    : (Outcome.ofOption r).Satisfies P := by
  have ⟨s, hs, hP⟩ := h
  rw [hs]
  exact hP

theorem Inv.withPriv (hinv : Inv tid s) (h : s.pthread = some pthread) (hplace : pthread.place.needsPriv)
    {r : Option Thread} (hr : ∃ s', r = some s' ∧ Inv tid s') : (s.withPriv r).Satisfies (Inv tid) := by
  unfold Thread.withPriv
  rw [(hinv.created pthread h).priv, if_pos hplace]
  exact Outcome.satisfies_ofOption hr

theorem Inv.stepThread (hinv : Inv tid s) (h : s.pthread = some pthread) (a : Label)
    : (s.stepThread tid pthread pthread.place a).Satisfies (Inv tid) := by
  have hthread := hinv.created pthread h
  unfold Thread.stepThread
  split
  . next hplace =>
    exact hinv.withPriv h (by rw [hplace]; rfl) ⟨_, rfl, hinv.lockTid h hplace⟩
  . next hplace => exact Outcome.satisfies_ofOption (hinv.exists_storeTid h hplace)
  . next hplace => exact Outcome.satisfies_ofOption (hinv.exists_resetTid h hplace)
  . next hplace =>
    refine hinv.withPriv h (by rw [hplace]; rfl) ⟨_, rfl, ?_⟩
    exact hinv.move h hplace (by simp) rfl rfl (fun _ => rfl) fun _ => rfl
  . next hplace =>
    refine hinv.withPriv h (by rw [hplace]; rfl) ⟨_, rfl, ?_⟩
    exact hinv.move h hplace (by simp) rfl rfl (fun _ => rfl) fun _ => rfl
  . trivial
  . next hplace =>
    show Inv tid _
    refine hinv.move h hplace (by simp) rfl rfl (fun _ => rfl) ?_
    intro h
    contradiction
  . next hplace => exact hinv.withPriv h (by rw [hplace]; rfl) (hinv.exists_deletePriv h hplace)
  . next hplace =>
    have hname {P : Prop} := @Pthread.Inv.not_named _ _ _ hthread (by rw [hplace]; rfl) P
    exact hinv.move h hplace (by simp) rfl rfl (fun _ => rfl) hname
  . trivial

theorem Inv.readTid (hinv : Inv tid s) (result : Int) : (s.readTid result).Satisfies (Inv tid) := by
  unfold Thread.readTid
  split
  . trivial
  . next hphase =>
    split
    . next hvalue =>
      have := hinv.cell_lives hphase
      rw [Shared.value_eq_none_iff] at hvalue
      omega
    . split
      . exact hinv
      . trivial

theorem Inv.stepObject (hinv : Inv tid s) {a : Label} (hpermits : s.Permits ndebug a)
    : (s.stepObject ndebug s.phase a).Satisfies (Inv tid) := by
  unfold Thread.stepObject
  split
  . next hphase => exact hinv.start hphase
  . next success hphase => exact hinv.create hphase success
  . next hphase => exact hinv.join hphase hpermits
  . next hphase => exact hinv.pthreadJoin hphase
  . next hphase => exact Outcome.satisfies_ofOption (hinv.exists_destroy hphase)
  . trivial

theorem Inv.step (hinv : Inv tid s) {a : Label} (hpermits : s.Permits ndebug a)
    : (s.step ndebug tid a).Satisfies (Inv tid) := by
  unfold Thread.step
  split
  . exact hinv.readTid _
  . split
    . exact hinv.stepObject hpermits
    . split
      . trivial
      . next h => exact hinv.stepThread h a

inductive Moves : Place → Label → Place → Prop
  | lock : Moves .lock .lock .store
  | lockFails : Moves .lock .lock .setName
  | store : Moves .store .store .reset
  | reset : Moves .reset .reset .setName
  | setName : Moves .setName .setName .entry
  | finish : Moves .entry .finish .setFinished
  | setFinished : Moves .setFinished .setFinished .delete
  | delete : Moves .delete .delete .leave
  | leave : Moves .leave .leave .returned

inductive Stepped (s : Thread) : Label → Thread → Prop
  | again (hstarted : s.started) : Stepped s .start s
  | start (hphase : s.phase = .idle)
    : Stepped s .start { s with
        started := true, priv := true, tidCell := s.tidCell.observe, phase := .creating }
  | create {pthread : Pthread} (hphase : s.phase = .creating) (hplace : pthread.place = .lock)
    : Stepped s (.create true) { s with pthread := some pthread, phase := .idle }
  | join (hphase : s.phase = .idle) (hjoined : s.joined = false)
    : Stepped s .join { s with joined := true, phase := .joining }
  | joined {pthread : Pthread} (hphase : s.phase = .joining) (h : s.pthread = some pthread)
    : Stepped s .joined { s with pthread := some { pthread with joined := true }, phase := .idle }
  | tid (result : Int) : Stepped s (.tid result) s
  | destroy {tidCell : Shared Int} (hphase : s.phase = .idle)
    : Stepped s .destroy { s with tidCell := tidCell, phase := .destroyed }
  | detach {tidCell : Shared Int} {pthread : Pthread} (hphase : s.phase = .idle)
    (h : s.pthread = some pthread)
    : Stepped s .destroy { s with
        tidCell := tidCell, phase := .destroyed, pthread := some { pthread with detached := true } }
  | move {a : Label} {tidCell : Shared Int} {priv : Bool} (pthread : Pthread) {threadName : NamePointer}
    {place : Place} (h : s.pthread = some pthread) (hmoves : Moves pthread.place a place)
    : Stepped s a { s with
        tidCell := tidCell, priv := priv
        pthread := some { pthread with place := place, threadName := threadName } }

theorem ofOption_eq_next {r : Option Thread} (h : Outcome.ofOption r = .next s') : r = some s' := by
  cases r with
  | none => contradiction
  | some s =>
    injection h with h
    rw [h]

theorem withPriv_eq_next {r : Option Thread} (h : s.withPriv r = .next s') : r = some s' := by
  unfold withPriv at h
  split at h
  . exact ofOption_eq_next h
  . contradiction

theorem stepped_of_destroy (hphase : s.phase = .idle) (h : s.destroy = some s')
    : Stepped s .destroy s' := by
  unfold Thread.destroy at h
  split at h
  . unfold pthreadDetach at h
    split at h
    . contradiction
    . next pthread hpthread =>
      split at h
      . contradiction
      . cases hrelease : s.tidCell.release with
        | none => simp [hrelease] at h
        | some tidCell =>
          simp only [Option.bind_eq_bind, Option.bind_some, hrelease, Option.pure_def,
            Option.some.injEq] at h
          rw [← h]
          exact .detach hphase hpthread
  . cases hrelease : s.tidCell.release with
    | none => simp [hrelease] at h
    | some tidCell =>
      simp only [Option.bind_eq_bind, Option.bind_some, hrelease, Option.pure_def, Option.some.injEq] at h
      rw [← h]
      exact .destroy hphase

theorem stepped_of_stepObject {a : Label} (hpermits : s.Permits ndebug a)
    (h : s.stepObject ndebug s.phase a = .next s') : Stepped s a s' := by
  unfold stepObject at h
  split at h
  . next hphase =>
    injection h with h
    rw [← h]
    unfold Thread.start
    split
    . next hstarted => exact .again hstarted
    . exact .start hphase
  . next success hphase =>
    unfold Thread.create at h
    cases success with
    | false => contradiction
    | true =>
      injection h with h
      rw [← h]
      exact .create hphase rfl
  . next hphase =>
    rw [(join_eq_next h).2]
    exact .join hphase (Bool.eq_false_iff.mpr (hpermits.mayJoin h).2)
  . next hphase =>
    unfold Thread.pthreadJoin at h
    split at h
    . contradiction
    . next hpthread =>
      split at h
      . contradiction
      . split at h
        . injection h with h
          rw [← h]
          exact .joined hphase hpthread
        . contradiction
  . next hphase => exact stepped_of_destroy hphase (ofOption_eq_next h)
  . contradiction

theorem stepped_of_stepThread (hpthread : s.pthread = some pthread) {a : Label}
    (h : s.stepThread tid pthread pthread.place a = .next s') : Stepped s a s' := by
  unfold stepThread at h
  split at h
  . next hplace =>
    have h := withPriv_eq_next h
    injection h with h
    rw [← h]
    unfold lockTid
    split
    . exact .move pthread hpthread (hplace ▸ .lock)
    . exact .move pthread hpthread (hplace ▸ .lockFails)
  . next hplace =>
    have h := ofOption_eq_next h
    unfold storeTid at h
    have ⟨tidCell, _, h⟩ := Option.bind_eq_some_iff.mp h
    injection h with h
    rw [← h]
    exact .move pthread hpthread (hplace ▸ .store)
  . next hplace =>
    have h := ofOption_eq_next h
    unfold resetTid at h
    have ⟨tidCell, _, h⟩ := Option.bind_eq_some_iff.mp h
    injection h with h
    rw [← h]
    exact .move pthread hpthread (hplace ▸ .reset)
  . next hplace =>
    have h := withPriv_eq_next h
    injection h with h
    rw [← h]
    exact .move pthread hpthread (hplace ▸ .setName)
  . next hplace =>
    have h := withPriv_eq_next h
    injection h with h
    rw [← h]
    exact .move pthread hpthread (hplace ▸ .finish)
  . contradiction
  . next hplace =>
    injection h with h
    rw [← h]
    exact .move pthread hpthread (hplace ▸ .setFinished)
  . next hplace =>
    have h := withPriv_eq_next h
    unfold deletePriv at h
    have ⟨tidCell, _, h⟩ := Option.bind_eq_some_iff.mp h
    injection h with h
    rw [← h]
    exact .move pthread hpthread (hplace ▸ .delete)
  . next hplace =>
    injection h with h
    rw [← h]
    exact .move pthread hpthread (hplace ▸ .leave)
  . contradiction

theorem stepped_of_step {a : Label} (hpermits : s.Permits ndebug a) (h : s.step ndebug tid a = .next s')
    : Stepped s a s' := by
  unfold Thread.step at h
  split at h
  . next result =>
    unfold readTid at h
    split at h
    . contradiction
    . split at h
      . contradiction
      . split at h
        . injection h with h
          rw [← h]
          exact .tid result
        . contradiction
  . split at h
    . exact stepped_of_stepObject hpermits h
    . split at h
      . contradiction
      . next hpthread => exact stepped_of_stepThread hpthread h

-- The runs of a caller that joins only where it may
inductive Runs (ndebug : Bool) (tid : Int) : List Label → Thread → Prop
  | init : Runs ndebug tid [] init
  | step {as : List Label} {s s' : Thread} {a : Label} (hrun : Runs ndebug tid as s)
      (hpermits : s.Permits ndebug a) (hstep : s.step ndebug tid a = .next s')
      : Runs ndebug tid (as ++ [a]) s'

theorem Runs.other {as : List Label} {a : Label} (hrun : Runs ndebug tid as s) (hne : a ≠ .join)
    (hstep : s.step ndebug tid a = .next s') : Runs ndebug tid (as ++ [a]) s' :=
  .step hrun (.of_ne hne) hstep

theorem Runs.inv {as : List Label} (h : Runs ndebug tid as s) : Inv tid s := by
  induction h with
  | init => exact inv_init
  | @step _ s s' a _ hpermits hstep ih =>
    have := ih.step hpermits
    rw [hstep] at this
    exact this

def Place.rank : Place → Nat
  | lock => 0
  | store => 1
  | reset => 2
  | setName => 3
  | entry => 4
  | setFinished => 5
  | delete => 6
  | leave => 7
  | returned => 8

-- What happens at most once
def milestones : List Label := [.create true, .join, .joined, .setName, .finish]

def passed (s : Thread) : Label → Bool
  | .create _ => s.pthread.isSome
  | .join => s.joined
  | .joined => s.joined && decide (s.phase ≠ .joining)
  | .setName => s.pthread.any (4 ≤ ·.place.rank)
  | .finish => s.pthread.any (5 ≤ ·.place.rank)
  | _ => false

theorem passed_of_step (hinv : Inv tid s) {a b : Label} (h : Stepped s a s') (hb : b ∈ milestones)
    : (s'.passed b).toNat = (s.passed b).toNat + if a = b then 1 else 0 := by
  simp only [milestones, List.mem_cons, List.not_mem_nil, or_false] at hb
  cases h with
  | again hstarted => rcases hb with rfl | rfl | rfl | rfl | rfl <;> simp
  | start hphase => rcases hb with rfl | rfl | rfl | rfl | rfl <;> simp [passed, hphase]
  | create hphase hplace =>
    have hnone : s.pthread = none := by
      cases h : s.pthread with
      | none => rfl
      | some pthread => exact absurd hphase (hinv.created pthread h).phase
    rcases hb with rfl | rfl | rfl | rfl | rfl <;> simp [passed, hphase, hnone, hplace, Place.rank]
  | join hphase hjoined => rcases hb with rfl | rfl | rfl | rfl | rfl <;> simp [passed, hjoined]
  | joined hphase h =>
    have hjoined := hinv.joining hphase
    rcases hb with rfl | rfl | rfl | rfl | rfl <;> simp [passed, hphase, hjoined, h]
  | tid result => rcases hb with rfl | rfl | rfl | rfl | rfl <;> simp
  | destroy hphase => rcases hb with rfl | rfl | rfl | rfl | rfl <;> simp [passed, hphase]
  | detach hphase h => rcases hb with rfl | rfl | rfl | rfl | rfl <;> simp [passed, hphase, h]
  | move pthread h hmoves =>
    generalize hplace : pthread.place = place at hmoves
    cases hmoves <;> rcases hb with rfl | rfl | rfl | rfl | rfl <;>
      simp [passed, h, hplace, Place.rank]

structure Told (as : List Label) (s : Thread) : Prop where
  count_eq : ∀ b ∈ milestones, as.count b = (s.passed b).toNat
  started_iff : s.started ↔ .start ∈ as

theorem Told.step {as : List Label} {a : Label} (h : Told as s) (hinv : Inv tid s)
    (hstep : Stepped s a s') : Told (as ++ [a]) s' where
  count_eq := by
    intro b hb
    rw [passed_of_step hinv hstep hb, List.count_append, h.count_eq b hb, List.count_singleton]
    simp only [beq_iff_eq]
  started_iff := by
    have hstarted := h.started_iff
    rw [List.mem_append, List.mem_singleton, ← hstarted]
    cases hstep with
    | again hagain => simp [hagain]
    | start => simp
    | move pthread h hmoves =>
      generalize pthread.place = place at hmoves
      cases hmoves <;> simp
    | _ => simp

theorem Runs.told {as : List Label} (h : Runs ndebug tid as s) : Told as s := by
  induction h with
  | init =>
    constructor
    . decide
    . simp [Thread.init]
  | step hrun hpermits hstep ih => exact ih.step hrun.inv (stepped_of_step hpermits hstep)

def Place.label : Place → Label
  | lock => .lock
  | store => .store
  | reset => .reset
  | setName => .setName
  | entry => .finish
  | setFinished => .setFinished
  | delete => .delete
  | leave | returned => .leave

def Outcome.happens {σ : Type} : Outcome σ → Bool
  | .next _ | .undefined => true
  | .stop | .disabled => false

theorem Outcome.exists_next {σ : Type} {P : σ → Prop} {r : Outcome σ} (hr : r.Satisfies P)
    (h : r.happens) : ∃ s, r = .next s := by
  cases r with
  | next s => exact ⟨s, rfl⟩
  | _ => contradiction

theorem happens_ofOption {r : Option Thread} : (Outcome.ofOption r).happens := by
  cases r <;> rfl

theorem happens_withPriv {r : Option Thread} : (s.withPriv r).happens := by
  unfold withPriv
  split
  . exact happens_ofOption
  . rfl

theorem happens_stepThread (hplace : pthread.place ≠ .returned)
    : (s.stepThread tid pthread pthread.place pthread.place.label).happens := by
  cases h : pthread.place with
  | returned => contradiction
  | store => exact happens_ofOption
  | reset => exact happens_ofOption
  | setFinished => rfl
  | leave => rfl
  | _ => exact happens_withPriv

theorem step_label (h : s.pthread = some pthread)
    : s.step ndebug tid pthread.place.label = s.stepThread tid pthread pthread.place pthread.place.label := by
  cases hplace : pthread.place <;> simp [Thread.step, h, hplace, Place.label, Label.ofObject]

theorem Inv.goesOn (hinv : Inv tid s) (h : s.pthread = some pthread) (hplace : pthread.place ≠ .returned)
    : ∃ s', s.step ndebug tid pthread.place.label = .next s' := by
  have hpermits : s.Permits ndebug pthread.place.label :=
    .of_ne (by cases pthread.place <;> simp [Place.label])
  apply Outcome.exists_next (hinv.step hpermits)
  rw [step_label h]
  exact happens_stepThread hplace

theorem Inv.joins (hinv : Inv tid s) (hphase : s.phase = .joining)
    : ∃ pthread, s.pthread = some pthread ∧
        (pthread.place = .returned → ∃ s', s.step ndebug tid .joined = .next s') := by
  cases h : s.pthread with
  | none =>
    have := (hinv.notCreated h).joined
    rw [hinv.joining hphase] at this
    contradiction
  | some pthread =>
    refine ⟨pthread, rfl, ?_⟩
    intro hplace
    have hpermits : s.Permits ndebug .joined := .of_ne (by simp)
    apply Outcome.exists_next (hinv.step hpermits)
    have hstep : s.step ndebug tid .joined = s.pthreadJoin := by
      simp [Thread.step, Thread.stepObject, Label.ofObject, hphase]
    rw [hstep]
    unfold Thread.pthreadJoin
    simp only [h, hplace, ↓reduceIte]
    split <;> rfl

theorem step_join_ne_undefined : s.step ndebug tid .join ≠ .undefined := by
  cases h : s.phase with
  | idle =>
    have hstep : s.step ndebug tid .join = s.join ndebug := by
      simp [Thread.step, Thread.stepObject, Label.ofObject, h]
    rw [hstep]
    exact join_ne_undefined
  | _ => simp [Thread.step, Thread.stepObject, Label.ofObject, h]

theorem join_of_step (h : s.step ndebug tid .join = .next s') : s.join ndebug = .next s' := by
  cases hphase : s.phase with
  | idle => simpa [Thread.step, Thread.stepObject, Label.ofObject, hphase] using h
  | _ => simp [Thread.step, Thread.stepObject, Label.ofObject, hphase] at h

theorem idle_of_step (h : s.step ndebug tid .join = .next s') : s.phase = .idle := by
  cases hphase : s.phase with
  | idle => rfl
  | _ => simp [Thread.step, Thread.stepObject, Label.ofObject, hphase] at h

-- A `Join` that the `DCHECK`s would stop gets to a `pthread_join` of no thread or of one that is gone.
theorem Inv.misused (hinv : Inv tid s) (hmisused : s.started = false ∨ s.joined)
    (h : s.step ndebug tid .join = .next s') : s'.step ndebug tid .joined = .undefined := by
  have hphase := idle_of_step h
  rw [(join_eq_next (join_of_step h)).2]
  show Thread.pthreadJoin _ = _
  unfold Thread.pthreadJoin
  cases hpthread : s.pthread with
  | none => rfl
  | some pthread =>
    have hcreated := hinv.created pthread hpthread
    have hjoined : pthread.joined := by
      rw [hcreated.joined_iff, hphase]
      rcases hmisused with hstarted | hjoined
      . rw [hcreated.started] at hstarted
        contradiction
      . exact ⟨hjoined, by simp⟩
    simp [hjoined]

theorem ofOption_ne_stop {r : Option Thread} : Outcome.ofOption r ≠ .stop := by
  cases r <;> simp [Outcome.ofOption]

theorem withPriv_ne_stop {r : Option Thread} : s.withPriv r ≠ .stop := by
  unfold withPriv
  split
  . exact ofOption_ne_stop
  . simp

theorem stop_of_stepThread {a : Label} (h : s.stepThread tid pthread pthread.place a = .stop)
    : a = .throw := by
  unfold stepThread at h
  split at h
  . exact absurd h withPriv_ne_stop
  . exact absurd h ofOption_ne_stop
  . exact absurd h ofOption_ne_stop
  . exact absurd h withPriv_ne_stop
  . exact absurd h withPriv_ne_stop
  . rfl
  . contradiction
  . exact absurd h withPriv_ne_stop
  . contradiction
  . contradiction

theorem stop_of_stepObject {a : Label} (h : s.stepObject ndebug s.phase a = .stop)
    : a = .create false ∨ a = .join ∧ ndebug = false ∧ (s.started = false ∨ s.joined) := by
  unfold stepObject at h
  split at h
  . contradiction
  . next success _ =>
    cases success with
    | false => exact .inl rfl
    | true => contradiction
  . refine .inr ⟨rfl, ?_⟩
    unfold Thread.join at h
    split at h
    . next hstarted =>
      rw [Bool.and_eq_true, Bool.not_eq_true', Bool.not_eq_true'] at hstarted
      exact ⟨hstarted.1, .inl hstarted.2⟩
    . split at h
      . next hjoined =>
        rw [Bool.and_eq_true, Bool.not_eq_true'] at hjoined
        exact ⟨hjoined.1, .inr hjoined.2⟩
      . contradiction
  . unfold Thread.pthreadJoin at h
    split at h
    . contradiction
    . split at h
      . contradiction
      . split at h <;> contradiction
  . exact absurd h ofOption_ne_stop
  . contradiction

theorem stop_of_step {a : Label} (h : s.step ndebug tid a = .stop)
    : a = .create false ∨ a = .throw ∨ a = .join ∧ ndebug = false ∧ (s.started = false ∨ s.joined) := by
  unfold Thread.step at h
  split at h
  . unfold readTid at h
    split at h
    . contradiction
    . split at h
      . contradiction
      . split at h <;> contradiction
  . split at h
    . rcases stop_of_stepObject h with h | h
      . exact .inl h
      . exact .inr (.inr h)
    . split at h
      . contradiction
      . exact .inr (.inl (stop_of_stepThread h))

theorem eq_of_readTid {result : Int} (h : s.step ndebug tid (.tid result) = .next s')
    : s.tidCell.value = some result := by
  have h : s.readTid result = .next s' := h
  unfold readTid at h
  split at h
  . contradiction
  . split at h
    . contradiction
    . next value hvalue =>
      split at h
      . next heq =>
        rw [hvalue, heq]
      . contradiction

structure Clean (s : Thread) : Prop where
  priv : s.priv = false
  freed : s.tidCell.Freed
  reaped : ∀ pthread, s.pthread = some pthread → pthread.joined = !pthread.detached

theorem Inv.clean (hinv : Inv tid s) (hphase : s.phase = .destroyed)
    (hreturned : ∀ pthread, s.pthread = some pthread → pthread.place = .returned) : Clean s := by
  have hobservers := hinv.observers
  cases h : s.pthread with
  | none =>
    have hnot := hinv.notCreated h
    have hpriv : s.priv = false := by
      simpa [hphase] using hnot.priv_iff
    have howners := hnot.owners
    rw [hphase] at howners
    rw [hpriv] at hobservers
    refine ⟨hpriv, ⟨Shared.value_eq_none_iff.mpr howners, howners, hobservers⟩, ?_⟩
    intro pthread h'
    rw [h] at h'
    contradiction
  | some pthread =>
    have hthread := hinv.created pthread h
    have hplace := hreturned pthread h
    have hpriv : s.priv = false := by
      rw [hthread.priv, hplace]
      rfl
    have howners := hthread.owners
    rw [hphase, hplace] at howners
    rw [hpriv] at hobservers
    refine ⟨hpriv, ⟨Shared.value_eq_none_iff.mpr howners, howners, hobservers⟩, ?_⟩
    intro pthread' h'
    rw [h] at h'
    injection h' with h'
    rw [← h']
    have hjoined := hthread.joined_iff
    have hdetached := hthread.detached_iff
    simp only [hphase, ne_eq, reduceCtorEq, not_false_eq_true, and_true, true_and] at hjoined hdetached
    rw [Bool.eq_iff_iff, hjoined, Bool.not_eq_true', ← Bool.not_eq_true, hdetached]
    simp

structure CleansUp (ndebug : Bool) (tid : Int) (as : List Label) (s : Thread) : Prop where
  defined : ∀ a, s.step ndebug tid a ≠ .undefined
  stops : ∀ a, s.step ndebug tid a = .stop →
      a = .create false ∨ a = .throw ∨ a = .join ∧ ndebug = false ∧ (.start ∉ as ∨ .join ∈ as)
  -- Without the `DCHECK`s such a `Join` goes wrong.
  misused : .start ∉ as ∨ .join ∈ as → ∀ s', s.step ndebug tid .join = .next s' →
      s'.step ndebug tid .joined = .undefined
  once : ∀ b ∈ milestones, as.count b ≤ 1
  inOrder : as.count .joined ≤ as.count .finish ∧ as.count .finish ≤ as.count .setName ∧
      as.count .setName ≤ as.count (.create true)
  tid_eq : ∀ result s', s.step ndebug tid (.tid result) = .next s' → result = 0 ∨ result = tid
  tid_joined : .joined ∈ as → ∀ result s', s.step ndebug tid (.tid result) = .next s' → result = tid
  named : ∀ pthread, s.pthread = some pthread → pthread.threadName = .ofPriv → s.priv
  goesOn : ∀ pthread, s.pthread = some pthread → pthread.place ≠ .returned →
      ∃ s', s.step ndebug tid pthread.place.label = .next s'
  joins : s.phase = .joining → ∃ pthread, s.pthread = some pthread ∧
      (pthread.place = .returned → ∃ s', s.step ndebug tid .joined = .next s')
  clean : s.phase = .destroyed →
      (∀ pthread, s.pthread = some pthread → pthread.place = .returned) → Clean s

theorem toNat_le_of_imp {b b' : Bool} (h : b → b') : b.toNat ≤ b'.toNat := by
  cases b with
  | false => exact Nat.zero_le _
  | true => exact Nat.le_of_eq (congrArg Bool.toNat (h rfl).symm)

theorem Told.mem_iff {as : List Label} (h : Told as s) {b : Label} (hb : b ∈ milestones)
    : b ∈ as ↔ s.passed b := by
  rw [← List.count_pos_iff, h.count_eq b hb]
  cases s.passed b <;> simp

theorem Told.count_le {as : List Label} (h : Told as s) {b b' : Label} (hb : b ∈ milestones)
    (hb' : b' ∈ milestones) (hpassed : s.passed b → s.passed b') : as.count b ≤ as.count b' := by
  rw [h.count_eq b hb, h.count_eq b' hb']
  exact toNat_le_of_imp hpassed

theorem Inv.exists_returned (hinv : Inv tid s) (hpassed : s.passed .joined)
    : ∃ pthread, s.pthread = some pthread ∧ pthread.place = .returned := by
  simp only [passed, Bool.and_eq_true, decide_eq_true_eq] at hpassed
  cases h : s.pthread with
  | none =>
    have := (hinv.notCreated h).joined
    rw [hpassed.1] at this
    contradiction
  | some pthread =>
    have hthread := hinv.created pthread h
    exact ⟨pthread, rfl, hthread.returned (hthread.joined_iff.mpr hpassed)⟩

theorem Inv.value_eq (hinv : Inv tid s) {result : Int} (h : s.tidCell.value = some result)
    : result = 0 ∨ result = tid := by
  cases hpthread : s.pthread with
  | none => exact .inl ((hinv.notCreated hpthread).value result h)
  | some pthread =>
    have := (hinv.created pthread hpthread).value result h
    split at this
    . exact .inr this
    . exact .inl this

theorem Inv.priv_of_named (hinv : Inv tid s) (h : s.pthread = some pthread)
    (hname : pthread.threadName = .ofPriv) : s.priv := by
  have hthread := hinv.created pthread h
  have hplace := hthread.named hname
  rw [hthread.priv]
  cases hcase : pthread.place <;> simp_all [Place.named, Place.needsPriv]

theorem Runs.misuse_iff {as : List Label} (hrun : Runs ndebug tid as s)
    : s.started = false ∨ s.joined ↔ .start ∉ as ∨ .join ∈ as := by
  rw [← hrun.told.started_iff, hrun.told.mem_iff (by decide), Bool.not_eq_true]
  rfl

theorem cleansUp_of_runs {as : List Label} (hrun : Runs ndebug tid as s) : CleansUp ndebug tid as s where
  defined := by
    intro a ha
    by_cases hjoin : a = .join
    . subst hjoin
      exact step_join_ne_undefined ha
    . have hpermits : s.Permits ndebug a := .of_ne hjoin
      have := hrun.inv.step hpermits
      rw [ha] at this
      exact this
  stops := by
    intro a ha
    rcases stop_of_step ha with h | h | ⟨h, hndebug, hjoin⟩
    . exact .inl h
    . exact .inr (.inl h)
    . exact .inr (.inr ⟨h, hndebug, hrun.misuse_iff.mp hjoin⟩)
  misused := fun hmisused _ h => hrun.inv.misused (hrun.misuse_iff.mpr hmisused) h
  once := by
    intro b hb
    rw [hrun.told.count_eq b hb]
    exact Bool.toNat_le _
  inOrder := by
    refine ⟨?_, ?_, ?_⟩
    . apply hrun.told.count_le (by decide) (by decide)
      intro h
      have ⟨pthread, hpthread, hplace⟩ := hrun.inv.exists_returned h
      simp [passed, hpthread, hplace, Place.rank]
    . apply hrun.told.count_le (by decide) (by decide)
      cases h : s.pthread with
      | none => simp [passed, h]
      | some pthread =>
        simp only [passed, h, Option.any_some, decide_eq_true_eq]
        omega
    . apply hrun.told.count_le (by decide) (by decide)
      cases h : s.pthread <;> simp [passed, h]
  tid_eq := fun result s' h => hrun.inv.value_eq (eq_of_readTid h)
  tid_joined := by
    intro hjoined result s' h
    have ⟨pthread, hpthread, hplace⟩ := hrun.inv.exists_returned ((hrun.told.mem_iff (by decide)).mp hjoined)
    have := (hrun.inv.created pthread hpthread).value result (eq_of_readTid h)
    rw [hplace] at this
    exact this
  named := fun pthread h => hrun.inv.priv_of_named h
  goesOn := fun pthread h => hrun.inv.goesOn h
  joins := hrun.inv.joins
  clean := hrun.inv.clean

-- The object is destroyed before the thread that it has started gets to its identifier.
theorem cleansUp_of_runs_orphan
    : ∃ s, Runs true 7 [.start, .create true, .tid 0, .destroy, .lock, .setName, .finish, .setFinished,
          .delete, .leave] s ∧ s.tidCell.Freed := by
  have hrun : Runs true 7 [.start, .create true, .tid 0, .destroy, .lock, .setName, .finish, .setFinished,
      .delete, .leave] _ :=
    .other (.other (.other (.other (.other (.other (.other (.other (.other (.other .init
      (by simp) rfl) (by simp) rfl) (by simp) rfl) (by simp) rfl) (by simp) rfl) (by simp) rfl)
      (by simp) rfl) (by simp) rfl) (by simp) rfl) (by simp) rfl
  refine ⟨_, hrun, ?_⟩
  apply Clean.freed
  apply (cleansUp_of_runs hrun).clean rfl
  intro pthread h
  injection h with h
  rw [← h]

end Thread
end Claire
