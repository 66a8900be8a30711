import ClaireCommon.Lib.Atomic
import ClaireCommon.Lib.Condition

/-!
This module contains objects with a mutex and a condition. An operation takes the mutex and executes its
critical section, it waits for the condition as long as the section cannot finish, and a section that
finishes can notify one of those who wait, or all of them.

A thread that a signal has reached, or whose wait ends without one, has to take the mutex again before
it looks at the object, and others can have the mutex before it.
-/

universe u v w x

namespace Guarded

inductive Signal where
  | nobody
  | one
  | everybody
  deriving DecidableEq

inductive Section (σ : Type x) (ρ : Type w) where
  | wait
  | finish (object : σ) (result : ρ) (signal : Signal)

-- How far a thread is with a call, it has the mutex when it is `inside` or `leaving`
inductive Call (ο : Type v) (ρ : Type w) where
  | idle
  | entering (operation : ο)
  | inside (operation : ο)
  | waiting (operation : ο)
  | leaving (result : ρ)
  deriving DecidableEq

inductive Label (ω : Type u) (ο : Type v) (ρ : Type w) where
  | call (t : ω) (operation : ο)
  | enter (t : ω)
  -- `receiver` is the thread that the signal goes to
  | finish (t : ω) (operation : ο) (result : ρ) (receiver : Option ω)
  | wait (t : ω)
  | wake (t : ω)
  | wakeSpuriously (t : ω)
  | leave (t : ω) (result : ρ)

def Section.effect? {σ : Type x} {ρ : Type w} : Section σ ρ → Option (σ × ρ)
  | .wait => none
  | .finish object result _ => some (object, result)

end Guarded

structure Guarded (ω : Type u) (ο : Type v) (ρ : Type w) (σ : Type x) where
  object : σ
  holder : Option ω
  condition : Condition ω
  calls : ω → Guarded.Call ο ρ

namespace Guarded

variable {ω : Type u} {ο : Type v} {ρ : Type w} {σ : Type x}

def init (object : σ) : Guarded ω ο ρ σ where
  object := object
  holder := none
  condition := .empty
  calls := fun _ => .idle

variable [DecidableEq ω]

def setCall (s : Guarded ω ο ρ σ) (t : ω) (call : Call ο ρ) : Guarded ω ο ρ σ :=
  { s with calls := Function.update s.calls t call }

def hold (s : Guarded ω ο ρ σ) (holder : Option ω) : Guarded ω ο ρ σ := { s with holder := holder }

def notify (condition : Condition ω) (receiver : Option ω) : Signal → Option (Condition ω)
  | .nobody => if receiver = none then some condition else none
  | .one => condition.notify receiver
  | .everybody => if receiver = none then some condition.notifyAll else none

variable [DecidableEq ο] [DecidableEq ρ]

def step (body : ο → σ → Section σ ρ) (s : Guarded ω ο ρ σ) : Label ω ο ρ → Option (Guarded ω ο ρ σ)
  | .call t operation => if s.calls t = .idle then some (s.setCall t (.entering operation)) else none
  | .enter t =>
    match s.calls t with
    | .entering operation =>
      if s.holder = none then some ((s.hold (some t)).setCall t (.inside operation)) else none
    | _ => none
  | .finish t operation result receiver =>
    if s.calls t = .inside operation then
      match body operation s.object with
      | .finish object result' signal =>
        match notify (s.condition.back t) receiver signal with
        | some condition =>
          if result = result' then
            some ({ s with object := object, condition := condition }.setCall t (.leaving result))
          else
            none
        | none => none
      | .wait => none
    else
      none
  | .wait t =>
    match s.calls t with
    | .inside operation =>
      match body operation s.object with
      | .wait =>
        some ({ s with condition := s.condition.wait t }.hold none |>.setCall t (.waiting operation))
      | .finish _ _ _ => none
    | _ => none
  | .wake t =>
    match s.calls t with
    | .waiting operation =>
      if t ∈ s.condition.signalled then some (s.setCall t (.entering operation)) else none
    | _ => none
  | .wakeSpuriously t =>
    match s.calls t with
    | .waiting operation =>
      if t ∈ s.condition.waiting then
        some ({ s with condition := s.condition.wake t }.setCall t (.entering operation))
      else
        none
    | _ => none
  | .leave t result =>
    if s.calls t = .leaving result then some ((s.hold none).setCall t .idle) else none

abbrev run (body : ο → σ → Section σ ρ) (s : Guarded ω ο ρ σ) (labels : List (Label ω ο ρ))
    : Option (Guarded ω ο ρ σ) :=
  Machine.run (step body) s labels

end Guarded
