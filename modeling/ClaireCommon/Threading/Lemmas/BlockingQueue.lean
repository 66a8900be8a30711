import ClaireCommon.Lib.GuardedRest
import ClaireCommon.Threading.Impl.BlockingQueue

/-!
This module contains that the blocking queue is a queue for all the threads that use it, and that no
thread waits for an element while there is one.
-/

namespace Claire
namespace BlockingQueue

open Guarded

universe u v

variable {τ : Type u} {ω : Type v} {queue : List τ}

-- As many signals are under way as there are values, or nobody waits.
def need (queue : List τ) (n : Nat) : Prop := n ≤ queue.length

theorem waits_iff {operation : Operation τ} : Waits body operation ↔ operation = .take := by
  constructor
  . intro ⟨queue, h⟩
    cases operation with
    | put x => contradiction
    | take => rfl
    | size => contradiction
  . intro h
    exact ⟨[], by rw [h]; rfl⟩

theorem eq_nil_of_wait {operation : Operation τ} (h : body operation queue = .wait)
    : operation = .take ∧ queue = [] := by
  have hoperation := waits_iff.mp ⟨queue, h⟩
  subst hoperation
  cases queue with
  | nil => exact ⟨rfl, rfl⟩
  | cons front queue => contradiction

theorem signals : Signals body (need (τ := τ)) where
  wait := by
    intro operation queue n hwait hneed
    have ⟨_, hnil⟩ := eq_nil_of_wait hwait
    subst hnil
    exact Nat.le_zero.mp hneed
  goOn := by
    intro operation queue hwaits hne
    rw [waits_iff] at hwaits
    subst hwaits
    cases queue with
    | nil => exact absurd rfl hne
    | cons front queue => exact Nat.succ_le_succ (Nat.zero_le _)
  finish := by
    intro operation queue queue' result signal n hbody hneed _
    cases operation with
    | put x =>
      injection hbody with hqueue _ hsignal
      refine ⟨queue.length, Nat.le_refl _, ?_, ?_⟩
      . rw [← hqueue, need, List.length_append] at hneed
        rw [← hsignal]
        exact hneed
      . intro hwaits
        rw [waits_iff] at hwaits
        contradiction
    | take =>
      cases queue with
      | nil => contradiction
      | cons front queue =>
        injection hbody with hqueue _ hsignal
        rw [← hqueue] at hneed
        exact ⟨n + 1, Nat.succ_le_succ hneed, by omega, fun _ => by omega⟩
    | size =>
      injection hbody with hqueue _ hsignal
      rw [← hqueue] at hneed
      refine ⟨n, hneed, by omega, ?_⟩
      intro hwaits
      rw [waits_iff] at hwaits
      contradiction

def put? : Operation τ × Result τ → Option τ
  | (.put x, _) => some x
  | _ => none

def taken? : Operation τ × Result τ → Option τ
  | (_, .take front) => some front
  | _ => none

def puts (labels : List (Label ω τ)) : List τ := (labels.filterMap Label.effect?).filterMap put?

def takes (labels : List (Label ω τ)) : List τ := (labels.filterMap Label.effect?).filterMap taken?

structure Fifo [DecidableEq ω] [DecidableEq τ] (labels : List (Label ω τ)) (s : BlockingQueue ω τ)
    : Prop where
  linearizable : Atomic.Linearizable (effectOf body) [] (labels.filterMap Label.event?)
  queue : puts labels = takes labels ++ s.object

theorem queue_of_effect {queue' : List τ} {operation : Operation τ} {result : Result τ}
    (h : effectOf body operation queue = some (queue', result))
    : queue ++ (put? (operation, result)).toList = (taken? (operation, result)).toList ++ queue' := by
  cases operation with
  | put x =>
    injection h with h
    injection h with hqueue hresult
    rw [← hqueue, ← hresult]
    rfl
  | take =>
    cases queue with
    | nil => contradiction
    | cons front queue =>
      injection h with h
      injection h with hqueue hresult
      rw [← hqueue, ← hresult]
      exact List.append_nil _
  | size =>
    injection h with h
    injection h with hqueue hresult
    rw [← hqueue, ← hresult]
    exact List.append_nil _

variable [DecidableEq τ]

theorem queue_of_effects {effects : List (Operation τ × Result τ)}
    (h : Machine.run (Atomic.applyAs (effectOf body)) [] effects = some queue)
    : effects.filterMap put? = effects.filterMap taken? ++ queue := by
  apply Machine.run_induction (P := fun effects queue =>
    effects.filterMap put? = effects.filterMap taken? ++ queue) rfl _ h
  intro effects queue effect queue' _ ih heffect
  rw [Machine.filterMap_concat, Machine.filterMap_concat, ih, List.append_assoc,
    queue_of_effect (Atomic.applyAs_eq_some.mp heffect), List.append_assoc]

variable [DecidableEq ω] {labels : List (Label ω τ)} {s : BlockingQueue ω τ}

theorem fifo_of_run (hrun : run create labels = some s) : Fifo labels s where
  linearizable := linearizable hrun
  queue := queue_of_effects (run_effects hrun)

/-! One thread waits for a value, another one takes the value before it. -/

def exampleLabels : List (Label (Fin 3) Nat) := [
  .call 0 .take, .enter 0, .wait 0, .call 1 (.put 5), .enter 1, .finish 1 (.put 5) .put (some 0),
  .call 2 .take, .leave 1 .put, .enter 2, .wake 0, .finish 2 .take (.take 5) none,
  .leave 2 (.take 5), .enter 0, .wait 0]

theorem fifo_of_run_stolen : ∃ s, run create exampleLabels = some s ∧ Fifo exampleLabels s := by
  refine ⟨_, rfl, ?_⟩
  apply fifo_of_run rfl

structure Rests [Fintype ω] (labels : List (Label ω τ)) (s : BlockingQueue ω τ) : Prop where
  length_le : labels.length
    ≤ (4 * Fintype.card ω + 4) * labels.countP Label.isCall + 4 * labels.countP Label.isSpurious
  -- A thread that cannot go on waits in `Take` for a value, and there is none.
  waits : (∀ label, label.goesOn → s.step body label = none) →
    ∀ t, s.calls t = .idle ∨ s.calls t = .waiting .take ∧ s.object = []

theorem rests_of_run [Fintype ω] (hrun : run create labels = some s) : Rests labels s where
  length_le := length_le hrun
  waits := by
    intro hstuck t
    rcases run_atRest signals hrun hstuck t with hidle | ⟨operation, hcall, hbody⟩
    . exact Or.inl hidle
    . have ⟨hoperation, hnil⟩ := eq_nil_of_wait hbody
      exact Or.inr ⟨hoperation ▸ hcall, hnil⟩

theorem rests_of_run_stolen : ∃ s, run create exampleLabels = some s ∧ Rests exampleLabels s := by
  refine ⟨_, rfl, ?_⟩
  apply rests_of_run rfl

end BlockingQueue
end Claire
