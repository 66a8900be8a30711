import ClaireCommon.Lib.Guarded

/-!
This module contains what a step of an object with a mutex and a condition can do, and that the history
of every run of it is linearizable.
-/

universe u v w x

namespace Guarded

variable {ω : Type u} {ο : Type v} {ρ : Type w} {σ : Type x} {body : ο → σ → Section σ ρ}
  {s s' : Guarded ω ο ρ σ} {label : Label ω ο ρ} {labels : List (Label ω ο ρ)}

def Call.phase : Call ο ρ → Atomic.Phase ο ρ
  | .idle => .idle
  | .entering operation | .inside operation | .waiting operation => .called operation
  | .leaving result => .done result

def atomic (s : Guarded ω ο ρ σ) : Atomic ω ο ρ σ where
  object := s.object
  phases := fun t => (s.calls t).phase

def Label.atomic? : Label ω ο ρ → Option (Atomic.Label ω ο ρ)
  | .call t operation => some (.event (.call t operation))
  | .finish t operation result _ => some (.effect t operation result)
  | .leave t result => some (.event (.ret t result))
  | _ => none

def Label.event? : Label ω ο ρ → Option (Atomic.Event ω ο ρ)
  | .call t operation => some (.call t operation)
  | .leave t result => some (.ret t result)
  | _ => none

def Label.effect? : Label ω ο ρ → Option (ο × ρ)
  | .finish _ operation result _ => some (operation, result)
  | _ => none

def Label.begun? [DecidableEq ω] (t : ω) : Label ω ο ρ → Option ο
  | .call t' operation => if t' = t then some operation else none
  | _ => none

def Label.done? [DecidableEq ω] (t : ω) : Label ω ο ρ → Option ο
  | .finish t' operation _ _ => if t' = t then some operation else none
  | _ => none

def Call.pending? : Call ο ρ → Option ο
  | .idle | .leaving _ => none
  | .entering operation | .inside operation | .waiting operation => some operation

def effectOf (body : ο → σ → Section σ ρ) (operation : ο) (object : σ) : Option (σ × ρ) :=
  (body operation object).effect?

theorem event?_of_atomic? (label : Label ω ο ρ) : label.atomic?.bind (·.event?) = label.event? := by
  cases label <;> rfl

theorem effect?_of_atomic? (label : Label ω ο ρ) : label.atomic?.bind (·.effect?) = label.effect? := by
  cases label <;> rfl

theorem atomic_init (object : σ) : (init object : Guarded ω ο ρ σ).atomic = Atomic.init object := rfl

variable [DecidableEq ω]

theorem atomic_setCall (s : Guarded ω ο ρ σ) (t : ω) (call : Call ο ρ)
    : (s.setCall t call).atomic = s.atomic.setPhase t call.phase := by
  dsimp only [atomic, setCall, Atomic.setPhase]
  congr 1
  funext t'
  by_cases ht : t' = t
  . rw [ht, Function.update_self, Function.update_self]
  . rw [Function.update_of_ne ht, Function.update_of_ne ht]

theorem pending_of_update {t t' : ω} {call : Call ο ρ} (hcalls : s'.calls = Function.update s.calls t' call)
    (hpending : call.pending? = (s.calls t').pending?)
    : (s'.calls t).pending? = (s.calls t).pending? := by
  rw [hcalls]
  by_cases h : t = t'
  . rw [h, Function.update_self, hpending]
  . rw [Function.update_of_ne h]

theorem pending_setCall (s : Guarded ω ο ρ σ) (t t' : ω) (call : Call ο ρ)
    : ((s.setCall t' call).calls t).pending? = if t' = t then call.pending? else (s.calls t).pending? := by
  dsimp only [setCall]
  by_cases h : t' = t
  . rw [h, Function.update_self, if_pos rfl]
  . rw [Function.update_of_ne (Ne.symm h), if_neg h]

theorem setPhase_atomic {t : ω} {phase : Atomic.Phase ο ρ} (h : (s.calls t).phase = phase)
    : s.atomic.setPhase t phase = s.atomic := by
  dsimp only [atomic, Atomic.setPhase]
  rw [← h]
  congr 1
  apply Function.update_eq_self

inductive Stepped (body : ο → σ → Section σ ρ) (s : Guarded ω ο ρ σ)
    : Label ω ο ρ → Guarded ω ο ρ σ → Prop
  | call {t : ω} {operation : ο} (hcall : s.calls t = .idle)
      : Stepped body s (.call t operation) (s.setCall t (.entering operation))
  | enter {t : ω} {operation : ο} (hcall : s.calls t = .entering operation) (hholder : s.holder = none)
      : Stepped body s (.enter t) ((s.hold (some t)).setCall t (.inside operation))
  | finish {t : ω} {operation : ο} {object : σ} {result : ρ} {signal : Signal} {receiver : Option ω}
      {condition : Condition ω} (hcall : s.calls t = .inside operation)
      (hbody : body operation s.object = .finish object result signal)
      (hnotify : notify (s.condition.back t) receiver signal = some condition)
      : Stepped body s (.finish t operation result receiver)
          ({ s with object := object, condition := condition }.setCall t (.leaving result))
  | wait {t : ω} {operation : ο} (hcall : s.calls t = .inside operation)
      (hbody : body operation s.object = .wait)
      : Stepped body s (.wait t)
          (({ s with condition := s.condition.wait t }.hold none).setCall t (.waiting operation))
  | wake {t : ω} {operation : ο} (hcall : s.calls t = .waiting operation)
      (hsignalled : t ∈ s.condition.signalled)
      : Stepped body s (.wake t) (s.setCall t (.entering operation))
  | wakeSpuriously {t : ω} {operation : ο} (hcall : s.calls t = .waiting operation)
      (hwaiting : t ∈ s.condition.waiting)
      : Stepped body s (.wakeSpuriously t)
          ({ s with condition := s.condition.wake t }.setCall t (.entering operation))
  | leave {t : ω} {result : ρ} (hcall : s.calls t = .leaving result)
      : Stepped body s (.leave t result) ((s.hold none).setCall t .idle)

variable [DecidableEq ο] [DecidableEq ρ]

theorem stepped_iff : s.step body label = some s' ↔ Stepped body s label s' := by
  constructor
  . intro h
    cases label with
    | call t operation =>
      simp only [step, Option.ite_none_right_eq_some, Option.some.injEq] at h
      rw [← h.2]
      exact .call h.1
    | enter t =>
      dsimp only [step] at h
      split at h
      . next operation hcall =>
        simp only [Option.ite_none_right_eq_some, Option.some.injEq] at h
        rw [← h.2]
        exact .enter hcall h.1
      . contradiction
    | finish t operation result receiver =>
      simp only [step, Option.ite_none_right_eq_some] at h
      rcases h with ⟨hcall, h⟩
      split at h
      . next object result' signal hbody =>
        split at h
        . next condition hnotify =>
          simp only [Option.ite_none_right_eq_some, Option.some.injEq] at h
          rw [← h.2, h.1]
          exact .finish hcall hbody hnotify
        . contradiction
      . contradiction
    | wait t =>
      dsimp only [step] at h
      split at h
      . next operation hcall =>
        split at h
        . next hbody =>
          injection h with h
          rw [← h]
          exact .wait hcall hbody
        . contradiction
      . contradiction
    | wake t =>
      dsimp only [step] at h
      split at h
      . next operation hcall =>
        simp only [Option.ite_none_right_eq_some, Option.some.injEq] at h
        rw [← h.2]
        exact .wake hcall h.1
      . contradiction
    | wakeSpuriously t =>
      dsimp only [step] at h
      split at h
      . next operation hcall =>
        simp only [Option.ite_none_right_eq_some, Option.some.injEq] at h
        rw [← h.2]
        exact .wakeSpuriously hcall h.1
      . contradiction
    | leave t result =>
      simp only [step, Option.ite_none_right_eq_some, Option.some.injEq] at h
      rw [← h.2]
      exact .leave h.1
  . intro h
    cases h with
    | call hcall => simp [step, hcall]
    | enter hcall hholder => simp [step, hcall, hholder]
    | finish hcall hbody hnotify => simp [step, hcall, hbody, hnotify]
    | wait hcall hbody => simp [step, hcall, hbody]
    | wake hcall hsignalled => simp [step, hcall, hsignalled]
    | wakeSpuriously hcall hwaiting => simp [step, hcall, hwaiting]
    | leave hcall => simp [step, hcall]

theorem Stepped.atomic (h : Stepped body s label s')
    : Atomic.run (effectOf body) s.atomic label.atomic?.toList = some s'.atomic := by
  cases h with
  | @call t operation hcall =>
    have hphase : s.atomic.phases t = .idle := congrArg Call.phase hcall
    simp only [Label.atomic?, Option.toList_some, Machine.run_cons, Atomic.step_call hphase,
      atomic_setCall]
    rfl
  | enter hcall hholder =>
    rw [atomic_setCall]
    exact congrArg some (setPhase_atomic (congrArg Call.phase hcall)).symm
  | @finish t operation object result _ _ _ hcall hbody hnotify =>
    have hphase : s.atomic.phases t = .called operation := congrArg Call.phase hcall
    have happly : effectOf body operation s.atomic.object = some (object, result) :=
      congrArg Section.effect? hbody
    simp only [Label.atomic?, Option.toList_some, Machine.run_cons, Atomic.step_effect hphase happly,
      atomic_setCall]
    rfl
  | wait hcall hbody =>
    rw [atomic_setCall]
    exact congrArg some (setPhase_atomic (congrArg Call.phase hcall)).symm
  | wake hcall hsignalled =>
    rw [atomic_setCall]
    exact congrArg some (setPhase_atomic (congrArg Call.phase hcall)).symm
  | wakeSpuriously hcall hwaiting =>
    rw [atomic_setCall]
    exact congrArg some (setPhase_atomic (congrArg Call.phase hcall)).symm
  | @leave t result hcall =>
    have hphase : s.atomic.phases t = .done result := congrArg Call.phase hcall
    simp only [Label.atomic?, Option.toList_some, Machine.run_cons, Atomic.step_ret hphase,
      atomic_setCall]
    rfl

theorem atomic_run (hrun : run body s labels = some s')
    : Atomic.run (effectOf body) s.atomic (labels.filterMap Label.atomic?) = some s'.atomic := by
  apply Machine.run_simulates Label.atomic? Guarded.atomic _ hrun
  intro s label s' h
  exact (stepped_iff.mp h).atomic

theorem linearizable {object : σ} (hrun : run body (init object) labels = some s)
    : Atomic.Linearizable (effectOf body) object (labels.filterMap Label.event?) := by
  refine ⟨labels.filterMap Label.atomic?, s.atomic, ?_, ?_⟩
  . rw [← atomic_init]
    exact atomic_run hrun
  . rw [List.filterMap_filterMap]
    apply List.filterMap_congr
    intro label _
    apply event?_of_atomic?

theorem run_effects {object : σ} (hrun : run body (init object) labels = some s)
    : Machine.run (Atomic.applyAs (effectOf body)) object (labels.filterMap Label.effect?)
        = some s.object := by
  have h := Atomic.run_effects (atomic_run hrun)
  rw [List.filterMap_filterMap] at h
  have heffects : labels.filterMap (fun label => label.atomic?.bind (·.effect?))
      = labels.filterMap Label.effect? :=
    List.filterMap_congr fun label _ => effect?_of_atomic? label
  rw [heffects] at h
  exact h

theorem begun_eq {object : σ} (hrun : run body (init object) labels = some s) (t : ω)
    : labels.filterMap (Label.begun? t) =
        labels.filterMap (Label.done? t) ++ (s.calls t).pending?.toList := by
  apply Machine.run_induction (P := fun labels (s : Guarded ω ο ρ σ) =>
    labels.filterMap (Label.begun? t) =
      labels.filterMap (Label.done? t) ++ (s.calls t).pending?.toList) rfl _ hrun
  intro labels s label s' _ ih hstep
  rw [Machine.filterMap_concat, Machine.filterMap_concat, ih]
  have hquiet : label.begun? t = none → label.done? t = none →
      (s'.calls t).pending? = (s.calls t).pending? →
      labels.filterMap (Label.done? t) ++ (s.calls t).pending?.toList ++ (label.begun? t).toList =
        labels.filterMap (Label.done? t) ++ (label.done? t).toList ++ (s'.calls t).pending?.toList := by
    intro hbegun hdone hpending
    rw [hbegun, hdone, hpending, Option.toList_none, List.append_nil, List.append_nil]
  cases stepped_iff.mp hstep with
  | @call t' operation hcall =>
    rw [pending_setCall]
    by_cases heq : t' = t
    . rw [heq] at hcall
      simp [heq, hcall, Label.begun?, Label.done?, Call.pending?]
    . simp [heq, Label.begun?, Label.done?]
  | @finish t' operation object result signal receiver condition hcall hbody hnotify =>
    rw [pending_setCall]
    by_cases heq : t' = t
    . rw [heq] at hcall
      simp [heq, hcall, Label.begun?, Label.done?, Call.pending?]
    . simp [heq, Label.begun?, Label.done?]
  | enter hcall hholder =>
    exact hquiet rfl rfl (pending_of_update rfl (congrArg Call.pending? hcall).symm)
  | wait hcall hbody =>
    exact hquiet rfl rfl (pending_of_update rfl (congrArg Call.pending? hcall).symm)
  | wake hcall hsignalled =>
    exact hquiet rfl rfl (pending_of_update rfl (congrArg Call.pending? hcall).symm)
  | wakeSpuriously hcall hwaiting =>
    exact hquiet rfl rfl (pending_of_update rfl (congrArg Call.pending? hcall).symm)
  | leave hcall =>
    exact hquiet rfl rfl (pending_of_update rfl (congrArg Call.pending? hcall).symm)

end Guarded
