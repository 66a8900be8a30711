import ClaireCommon.Lib.Shared

/-!
This module contains the life of a `Thread` object and of the thread that it starts. The steps of the two
interleave in any order. The object is used by one thread at a time, except for `tid`, and not after it has
been destroyed, and the thread does not join itself.
-/

namespace Claire
namespace Thread

inductive Place where
  | lock
  | store
  | reset
  | setName
  | entry
  | setFinished
  | delete
  | leave
  | returned
  deriving DecidableEq, Repr

-- What `t_thread_name` points to
inductive NamePointer where
  | unknown
  -- Into `name_` of `Priv`
  | ofPriv
  | finished
  deriving DecidableEq, Repr

structure Pthread where
  place : Place
  threadName : NamePointer
  joined : Bool
  detached : Bool

inductive Phase where
  | idle
  | creating
  | joining
  | destroyed
  deriving DecidableEq, Repr

inductive Label where
  | start
  -- `pthread_create` and whether it succeeds
  | create (success : Bool)
  | join
  | joined
  | tid (result : Int)
  | destroy
  | lock
  | store
  | reset
  | setName
  -- `entry_` returns, or throws
  | finish
  | throw
  | setFinished
  | delete
  | leave
  deriving DecidableEq

inductive Outcome (σ : Type) where
  | next (s : σ)
  | stop
  -- What is done has no meaning: what is used is gone, or an identifier is.
  | undefined
  | disabled

def Outcome.ofOption {σ : Type} : Option σ → Outcome σ
  | some s => .next s
  | none => .undefined

end Thread

structure Thread where
  started : Bool
  joined : Bool
  phase : Thread.Phase
  -- What `tid_` and `weak_tid_` point to
  tidCell : Shared Int
  priv : Bool
  pthread : Option Thread.Pthread

namespace Thread

variable (ndebug : Bool) (tid : Int)

def init : Thread where
  started := false
  joined := false
  phase := .idle
  tidCell := .make 0
  priv := false
  pthread := none

def start (s : Thread) : Thread :=
  if s.started then s
  else { s with started := true, priv := true, tidCell := s.tidCell.observe, phase := .creating }

-- `LOG(FATAL)` ends the program.
def create (s : Thread) (success : Bool) : Outcome Thread :=
  if success then
    let pthread : Pthread := { place := .lock, threadName := .unknown, joined := false, detached := false }
    .next { s with pthread := some pthread, phase := .idle }
  else
    .stop

-- With `NDEBUG` nothing looks whether the thread has been started, or joined before.
def join (s : Thread) : Outcome Thread :=
  if !ndebug && !s.started then .stop
  else if !ndebug && s.joined then .stop
  else .next { s with joined := true, phase := .joining }

-- `pthread_join`, which waits for the thread
def pthreadJoin (s : Thread) : Outcome Thread :=
  match s.pthread with
  | none => .undefined
  | some pthread =>
    if pthread.joined || pthread.detached then .undefined
    else if pthread.place = .returned then
      .next { s with pthread := some { pthread with joined := true }, phase := .idle }
    else .disabled

def pthreadDetach (s : Thread) : Option Thread :=
  match s.pthread with
  | none => none
  | some pthread =>
    if pthread.joined || pthread.detached then none
    else some { s with pthread := some { pthread with detached := true } }

def destroy (s : Thread) : Option Thread := do
  let s ← if s.started && !s.joined then s.pthreadDetach else some s
  let tidCell ← s.tidCell.release
  return { s with tidCell := tidCell, phase := .destroyed }

def withPriv (s : Thread) (r : Option Thread) : Outcome Thread :=
  if s.priv then .ofOption r else .undefined

def goTo (s : Thread) (pthread : Pthread) (place : Place) : Thread :=
  { s with pthread := some { pthread with place := place } }

def lockTid (s : Thread) (pthread : Pthread) : Thread :=
  match s.tidCell.lock with
  | some tidCell => { s with tidCell := tidCell }.goTo pthread .store
  | none => s.goTo pthread .setName

def storeTid (s : Thread) (pthread : Pthread) : Option Thread := do
  let tidCell ← s.tidCell.store tid
  return { s with tidCell := tidCell }.goTo pthread .reset

def resetTid (s : Thread) (pthread : Pthread) : Option Thread := do
  let tidCell ← s.tidCell.release
  return { s with tidCell := tidCell }.goTo pthread .setName

def deletePriv (s : Thread) (pthread : Pthread) : Option Thread := do
  let tidCell ← s.tidCell.forget
  return { s with tidCell := tidCell, priv := false }.goTo pthread .leave

def stepThread (s : Thread) (pthread : Pthread) : Place → Label → Outcome Thread
  | .lock, .lock => s.withPriv (s.lockTid pthread)
  | .store, .store => .ofOption (s.storeTid tid pthread)
  | .reset, .reset => .ofOption (s.resetTid pthread)
  | .setName, .setName => s.withPriv (s.goTo { pthread with threadName := .ofPriv } .entry)
  | .entry, .finish => s.withPriv (s.goTo pthread .setFinished)
  | .entry, .throw => .stop
  | .setFinished, .setFinished => .next (s.goTo { pthread with threadName := .finished } .delete)
  | .delete, .delete => s.withPriv (s.deletePriv pthread)
  | .leave, .leave => .next (s.goTo pthread .returned)
  | _, _ => .disabled

-- A call of the object, or the step behind it that ends the call
def stepObject (s : Thread) : Phase → Label → Outcome Thread
  | .idle, .start => .next s.start
  | .creating, .create success => s.create success
  | .idle, .join => s.join ndebug
  | .joining, .joined => s.pthreadJoin
  | .idle, .destroy => .ofOption s.destroy
  | _, _ => .disabled

def readTid (s : Thread) (result : Int) : Outcome Thread :=
  match s.phase with
  | .destroyed => .disabled
  | _ =>
    match s.tidCell.value with
    | none => .undefined
    | some value => if value = result then .next s else .disabled

def Label.ofObject : Label → Bool
  | start | create _ | join | joined | destroy => true
  | _ => false

def step (s : Thread) (label : Label) : Outcome Thread :=
  match label with
  | .tid result => s.readTid result
  | _ =>
    if label.ofObject then s.stepObject ndebug s.phase label
    else
      match s.pthread with
      | none => .disabled
      | some pthread => s.stepThread tid pthread pthread.place label

end Thread
end Claire
