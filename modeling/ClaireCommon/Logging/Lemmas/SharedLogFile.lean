import ClaireCommon.Lib.GuardedRest
import ClaireCommon.Logging.Impl.SharedLogFile
import ClaireCommon.Logging.Lemmas.LogFile

/-!
This module contains that the log file that several threads share is as good as one that a single thread
has.
-/

namespace Claire
namespace LogFile
namespace Shared

open Guarded

variable {ω : Type} {system : System} {settings : Settings} {file : Option Rolling}

theorem effectOf_body (call : Call)
    : effectOf (body system settings) call file
        = some (file.bind (Rolling.step system settings · call), ()) :=
  rfl

theorem not_waits {call : Call} : ¬Waits (body system settings) call := by
  intro ⟨file, h⟩
  contradiction

theorem signals : Signals (body system settings) fun _ n => n = 0 where
  wait := fun h _ => by contradiction
  goOn := fun h _ => absurd h not_waits
  finish := fun _ h _ => ⟨0, rfl, by omega, fun hwaits => absurd hwaits not_waits⟩

theorem run_of_effects {file' : Option Rolling} {effects : List (Call × Unit)}
    (h : Machine.run (Atomic.applyAs (effectOf (body system settings))) file effects = some file')
    : file' = file.bind (Machine.run (Rolling.step system settings) · (effects.map Prod.fst)) := by
  induction effects generalizing file with
  | nil =>
    injection h with h
    rw [← h]
    cases file with
    | none => rfl
    | some r => rfl
  | cons effect effects ih =>
    rw [Machine.run_cons_eq_some] at h
    have ⟨file₁, hfile₁, h⟩ := h
    rw [Atomic.applyAs_eq_some, effectOf_body] at hfile₁
    injection hfile₁ with hfile₁
    injection hfile₁ with hfile₁ _
    rw [ih h, ← hfile₁]
    cases file with
    | none => rfl
    | some r => rfl

variable [DecidableEq ω]

def callsOf (labels : List (Label ω)) : List Call := (labels.filterMap Label.effect?).map Prod.fst

structure Shares (system : System) (settings : Settings) (link : Option Entry)
    (others : List (List UInt8 × Nat)) (labels : List (Label ω)) (s : SharedLogFile ω) : Prop where
  linearizable : Atomic.Linearizable (effectOf (body system settings))
      (Rolling.create system settings link others) (labels.filterMap Label.event?)
  keeps : ∃ file, s.object = some file ∧ Rolling.Keeps (callsOf labels) file ∧
      Rolling.Spares (Rolling.unopened link others) file
  inOrder : ∀ t, labels.filterMap (Label.begun? t) =
      labels.filterMap (Label.done? t) ++ (s.calls t).pending?.toList
  rests : (∀ label, label.goesOn → s.step (body system settings) label = none) →
      ∀ t, s.calls t = .idle

-- Two threads append, and the one that calls first comes second.
def exampleLabels : List (Label Bool) := [
  .call false (.append [1, 2]), .call true (.append [3]), .enter true,
  .finish true (.append [3]) () none, .leave true (), .enter false, .call true .flush,
  .finish false (.append [1, 2]) () none, .leave false ()]

end Shared
end LogFile
end Claire
