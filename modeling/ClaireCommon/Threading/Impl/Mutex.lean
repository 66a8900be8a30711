import Mathlib.Logic.Function.Basic

/-!
This module contains the mutex that knows its holder and what `Condition` does to it. `ω` are the threads
and `tid t` is the identifier of `t`. The mutex is one that checks for errors, as in a build with DCHECKs.

A wait can end at any time, with or without a notification.
-/

namespace Claire
namespace Mutex

inductive Place where
  | outside
  | locking
  | inside
  | unlocking
  | toWait (timed : Bool)
  | waiting (timed : Bool)
  | woken (timedOut : Bool)
  | relocked (timedOut : Bool)
  deriving DecidableEq, Repr

def Place.hasMutex : Place → Bool
  | outside | waiting _ | woken _ => false
  | locking | inside | unlocking | toWait _ | relocked _ => true

inductive Label (ω : Type) where
  | lock (t : ω)
  | assignHolder (t : ω)
  | unAssignHolder (t : ω)
  | unlock (t : ω)
  -- The constructor of `UnAssignGuard`
  | beginWait (t : ω) (timed : Bool)
  | sleep (t : ω)
  | wake (t : ω) (timedOut : Bool)
  | relock (t : ω)
  -- The destructor of `UnAssignGuard` with the result of `WaitForSeconds`
  | endWait (t : ω) (timedOut : Bool)
  | isLockedByThisThread (t : ω) (result : Bool)
  deriving DecidableEq

inductive Outcome (σ : Type) where
  | next (s : σ)
  -- `DCHECK_ERR` fails.
  | stop
  | disabled

end Mutex

structure Mutex (ω : Type) where
  owner : Option ω
  holder : Nat
  place : ω → Mutex.Place

namespace Mutex

variable {ω : Type} [DecidableEq ω] (tid : ω → Nat)

def init : Mutex ω where
  owner := none
  holder := 0
  place := fun _ => .outside

def setPlace (s : Mutex ω) (t : ω) (place : Place) : Mutex ω :=
  { s with place := Function.update s.place t place }

def holds (s : Mutex ω) (t : ω) : Bool := s.holder = tid t

-- `pthread_mutex_lock`, which blocks while another thread has the mutex
def acquire (s : Mutex ω) (t : ω) (place : Place) : Outcome (Mutex ω) :=
  match s.owner with
  | none => .next ({ s with owner := some t }.setPlace t place)
  | some t' => if t' = t then .stop else .disabled

-- `pthread_mutex_unlock` and the beginning of `pthread_cond_wait`
def release (s : Mutex ω) (t : ω) (place : Place) : Outcome (Mutex ω) :=
  if s.owner = some t then .next ({ s with owner := none }.setPlace t place) else .stop

def step (s : Mutex ω) : Label ω → Outcome (Mutex ω)
  | .lock t =>
    match s.place t with
    | .outside | .inside => s.acquire t .locking
    | _ => .disabled
  | .assignHolder t =>
    match s.place t with
    | .locking => .next ({ s with holder := tid t }.setPlace t .inside)
    | _ => .disabled
  | .unAssignHolder t =>
    match s.place t with
    | .outside | .inside => .next ({ s with holder := 0 }.setPlace t .unlocking)
    | _ => .disabled
  | .unlock t =>
    match s.place t with
    | .unlocking => s.release t .outside
    | _ => .disabled
  | .beginWait t timed =>
    match s.place t with
    | .outside | .inside => .next ({ s with holder := 0 }.setPlace t (.toWait timed))
    | _ => .disabled
  | .sleep t =>
    match s.place t with
    | .toWait timed => s.release t (.waiting timed)
    | _ => .disabled
  | .wake t timedOut =>
    match s.place t with
    | .waiting timed => if timedOut → timed then .next (s.setPlace t (.woken timedOut)) else .disabled
    | _ => .disabled
  | .relock t =>
    match s.place t with
    | .woken timedOut => s.acquire t (.relocked timedOut)
    | _ => .disabled
  | .endWait t timedOut =>
    match s.place t with
    | .relocked timedOut' =>
      if timedOut = timedOut' then .next ({ s with holder := tid t }.setPlace t .inside) else .disabled
    | _ => .disabled
  | .isLockedByThisThread t result =>
    match s.place t with
    | .outside | .inside => if result = s.holds tid t then .next s else .disabled
    | _ => .disabled

end Mutex
end Claire
