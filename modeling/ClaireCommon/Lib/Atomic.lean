import ClaireCommon.Lib.Machine
import Mathlib.Logic.Function.Basic

/-!
This module contains objects that several threads call: what a thread sees are the calls and the returns,
and in an atomic object every call takes effect at one point between the two. A history of calls and
returns is linearizable if an atomic object has it.

`ω` is the type of the threads, `ο` the one of the operations and `ρ` the one of their results. `apply`
is what an operation does to the object, it is `none` as long as the operation has to wait.
-/

universe u v w x

namespace Atomic

inductive Event (ω : Type u) (ο : Type v) (ρ : Type w) where
  | call (t : ω) (operation : ο)
  | ret (t : ω) (result : ρ)
  deriving DecidableEq

inductive Phase (ο : Type v) (ρ : Type w) where
  | idle
  | called (operation : ο)
  | done (result : ρ)
  deriving DecidableEq

inductive Label (ω : Type u) (ο : Type v) (ρ : Type w) where
  | event (e : Event ω ο ρ)
  | effect (t : ω) (operation : ο) (result : ρ)

def Label.event? {ω : Type u} {ο : Type v} {ρ : Type w} : Label ω ο ρ → Option (Event ω ο ρ)
  | .event e => some e
  | .effect _ _ _ => none

def Label.effect? {ω : Type u} {ο : Type v} {ρ : Type w} : Label ω ο ρ → Option (ο × ρ)
  | .event _ => none
  | .effect _ operation result => some (operation, result)

end Atomic

structure Atomic (ω : Type u) (ο : Type v) (ρ : Type w) (σ : Type x) where
  object : σ
  phases : ω → Atomic.Phase ο ρ

namespace Atomic

variable {ω : Type u} {ο : Type v} {ρ : Type w} {σ : Type x}

def init (object : σ) : Atomic ω ο ρ σ where
  object := object
  phases := fun _ => .idle

-- The object on its own, with operations and the results they are to have
def applyAs [DecidableEq ρ] (apply : ο → σ → Option (σ × ρ)) (object : σ) (effect : ο × ρ) : Option σ :=
  match apply effect.1 object with
  | some (object, result) => if result = effect.2 then some object else none
  | none => none

theorem applyAs_eq_some [DecidableEq ρ] {apply : ο → σ → Option (σ × ρ)} {object object' : σ}
    {effect : ο × ρ}
    : applyAs apply object effect = some object' ↔ apply effect.1 object = some (object', effect.2) := by
  dsimp only [applyAs]
  constructor
  . intro h
    split at h
    . next object result happly =>
      simp only [Option.ite_none_right_eq_some, Option.some.injEq] at h
      rw [happly, h.1, h.2]
    . contradiction
  . intro h
    simp [h]

variable [DecidableEq ω]

def setPhase (s : Atomic ω ο ρ σ) (t : ω) (phase : Phase ο ρ) : Atomic ω ο ρ σ :=
  { s with phases := Function.update s.phases t phase }

variable [DecidableEq ο] [DecidableEq ρ] {apply : ο → σ → Option (σ × ρ)}

def step (apply : ο → σ → Option (σ × ρ)) (s : Atomic ω ο ρ σ) : Label ω ο ρ → Option (Atomic ω ο ρ σ)
  | .event (.call t operation) =>
    if s.phases t = .idle then some (s.setPhase t (.called operation)) else none
  | .event (.ret t result) =>
    if s.phases t = .done result then some (s.setPhase t .idle) else none
  | .effect t operation result =>
    match applyAs apply s.object (operation, result) with
    | some object =>
      if s.phases t = .called operation then
        some ({ s with object := object }.setPhase t (.done result))
      else
        none
    | none => none

abbrev run (apply : ο → σ → Option (σ × ρ)) (s : Atomic ω ο ρ σ) (labels : List (Label ω ο ρ))
    : Option (Atomic ω ο ρ σ) :=
  Machine.run (step apply) s labels

theorem step_call {s : Atomic ω ο ρ σ} {t : ω} {operation : ο} (h : s.phases t = .idle)
    : s.step apply (.event (.call t operation)) = some (s.setPhase t (.called operation)) := by
  simp [step, h]

theorem step_ret {s : Atomic ω ο ρ σ} {t : ω} {result : ρ} (h : s.phases t = .done result)
    : s.step apply (.event (.ret t result)) = some (s.setPhase t .idle) := by
  simp [step, h]

theorem step_effect {s : Atomic ω ο ρ σ} {t : ω} {operation : ο} {object : σ} {result : ρ}
    (h : s.phases t = .called operation) (happly : apply operation s.object = some (object, result))
    : s.step apply (.effect t operation result)
        = some ({ s with object := object }.setPhase t (.done result)) := by
  simp [step, applyAs, h, happly]

def Linearizable (apply : ο → σ → Option (σ × ρ)) (object : σ) (history : List (Event ω ο ρ)) : Prop :=
  ∃ labels s, run apply (init object) labels = some s ∧ labels.filterMap Label.event? = history

theorem run_effects {s s' : Atomic ω ο ρ σ} {labels : List (Label ω ο ρ)}
    (hrun : run apply s labels = some s')
    : Machine.run (applyAs apply) s.object (labels.filterMap Label.effect?) = some s'.object := by
  apply Machine.run_simulates Label.effect? Atomic.object _ hrun
  intro s label s' h
  cases label with
  | event event =>
    cases event with
    | call t operation =>
      simp only [step, Option.ite_none_right_eq_some, Option.some.injEq] at h
      simp [Label.effect?, setPhase, ← h.2]
    | ret t result =>
      simp only [step, Option.ite_none_right_eq_some, Option.some.injEq] at h
      simp [Label.effect?, setPhase, ← h.2]
  | effect t operation result =>
    dsimp only [step] at h
    split at h
    . next object happly =>
      simp only [Option.ite_none_right_eq_some, Option.some.injEq] at h
      simp [Label.effect?, setPhase, happly, ← h.2]
    . contradiction

end Atomic
