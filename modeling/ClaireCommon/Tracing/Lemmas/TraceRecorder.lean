import Mathlib.Data.List.Infix
import ClaireCommon.Tracing.Impl.TraceRecorder

/-!
This module contains when the children that `MakeChild` returns are distinct.
-/

namespace Claire
namespace Tracing

structure Inv (s : Tracing) : Prop where
  registered : ∀ ids p, s.recorder.find ids = some p → ∃ trace, s.heap p = some trace ∧ trace.ids = ids
  fresh : ∀ p, s.constructed ≤ p → s.heap p = none

theorem create_inv : create.Inv := by
  constructor
  . intro ids p h
    contradiction
  . intro p _
    rfl

variable {s : Tracing}

theorem Inv.lt_constructed (hinv : s.Inv) {p : Nat} {trace : Trace} (hp : s.heap p = some trace)
    : p < s.constructed := by
  apply Nat.lt_of_not_le
  intro hle
  rw [hinv.fresh p hle] at hp
  contradiction

theorem Inv.registered_lt (hinv : s.Inv) {ids : Int × Int} {p : Nat}
    (hfind : s.recorder.find ids = some p) : p < s.constructed := by
  have ⟨trace, hp, _⟩ := hinv.registered ids p hfind
  exact hinv.lt_constructed hp

theorem factoryGetParent_of_none {name : String} {traceId spanId parentSpanId : Int}
    (hfind : s.recorder.find (traceId, spanId) = none)
    : s.factoryGetParent name traceId spanId parentSpanId = (s.constructed, { s with
        recorder := ⟨Function.update s.recorder.traces (traceId, spanId) (some s.constructed)⟩
        heap := Function.update s.heap s.constructed (some ⟨name, traceId, spanId, parentSpanId⟩)
        constructed := s.constructed + 1 }) := by
  unfold TraceRecorder.find at hfind
  unfold factoryGetParent construct TraceRecorder.registerOrDeleteDuplicate
  dsimp only
  rw [hfind]
  rfl

theorem factoryGetParent_of_some (hinv : s.Inv) {name : String} {traceId spanId parentSpanId : Int}
    {p : Nat} (hfind : s.recorder.find (traceId, spanId) = some p)
    : s.factoryGetParent name traceId spanId parentSpanId =
        (p, { s with constructed := s.constructed + 1 }) := by
  have hlt := hinv.registered_lt hfind
  have hne : s.constructed ≠ p := by omega
  have hheap : Function.update (Function.update s.heap s.constructed
      (some ⟨name, traceId, spanId, parentSpanId⟩)) s.constructed none = s.heap := by
    rw [Function.update_idem, ← hinv.fresh s.constructed (Nat.le_refl _), Function.update_eq_self]
  unfold TraceRecorder.find at hfind
  unfold factoryGetParent construct TraceRecorder.registerOrDeleteDuplicate
  dsimp only
  rw [hfind]
  dsimp only
  rw [if_neg hne]
  dsimp only [delete]
  rw [hheap]

theorem Inv.factoryGetParent (hinv : s.Inv) (name : String) (traceId spanId parentSpanId : Int)
    : (s.factoryGetParent name traceId spanId parentSpanId).2.Inv := by
  cases hfind : s.recorder.find (traceId, spanId) with
  | none =>
    rw [factoryGetParent_of_none hfind]
    constructor
    . intro ids p h
      unfold TraceRecorder.find at h
      dsimp only at h
      rw [Function.update_apply] at h
      split at h
      . next heq =>
        injection h with h
        rw [← h, heq]
        exact ⟨_, Function.update_self .., rfl⟩
      . have ⟨trace, hp, hids⟩ := hinv.registered ids p h
        have hlt := hinv.lt_constructed hp
        refine ⟨trace, ?_, hids⟩
        dsimp only
        rw [Function.update_of_ne (by omega)]
        exact hp
    . intro p hle
      dsimp only at hle ⊢
      rw [Function.update_of_ne (by omega)]
      apply hinv.fresh p
      omega
  | some p =>
    rw [factoryGetParent_of_some hinv hfind]
    constructor
    . exact hinv.registered
    . intro p hle
      dsimp only at hle
      apply hinv.fresh p
      omega

theorem constructed_factoryGetParent (hinv : s.Inv) (name : String)
    (traceId spanId parentSpanId : Int)
    : (s.factoryGetParent name traceId spanId parentSpanId).2.constructed = s.constructed + 1 := by
  cases hfind : s.recorder.find (traceId, spanId) with
  | none => rw [factoryGetParent_of_none hfind]
  | some p => rw [factoryGetParent_of_some hinv hfind]

theorem Inv.erase (hinv : s.Inv) (traceId spanId : Int) : (s.erase traceId spanId).Inv := by
  unfold Tracing.erase TraceRecorder.erase
  cases hfind : s.recorder.traces (traceId, spanId) with
  | none => exact hinv
  | some q =>
    have ⟨erased, hq, herased⟩ := hinv.registered (traceId, spanId) q hfind
    constructor
    . intro ids p h
      unfold TraceRecorder.find at h
      dsimp only [delete] at h ⊢
      rw [Function.update_apply] at h
      split at h
      . contradiction
      . next hne =>
        have ⟨trace, hp, hids⟩ := hinv.registered ids p h
        refine ⟨trace, ?_, hids⟩
        rw [Function.update_of_ne]
        . exact hp
        . intro heq
          rw [heq, hq] at hp
          injection hp with hp
          rw [← hids, ← hp, herased] at hne
          contradiction
    . intro p hle
      have hnone := hinv.fresh p hle
      dsimp only [delete]
      rw [Function.update_apply]
      split
      . rfl
      . exact hnone

theorem constructed_erase (s : Tracing) (traceId spanId : Int)
    : (s.erase traceId spanId).constructed = s.constructed := by
  unfold erase TraceRecorder.erase
  cases s.recorder.traces (traceId, spanId) <;> rfl

theorem makeChild_eq_some {p : Nat} {name : String} {r : Nat × Tracing}
    : s.makeChild p name = some r ↔ ∃ parent, s.heap p = some parent ∧ parent.spanId + 1 < 2 ^ 63 ∧
        s.factoryGetParent name parent.traceId (parent.spanId + 1) parent.spanId = r := by
  unfold makeChild
  cases s.heap p with
  | none => simp
  | some parent =>
    simp

variable {generator : Nat → Int} {operations : List Operation}

theorem Inv.step {s' : Tracing} {operation : Operation} (hinv : s.Inv)
    (hstep : step generator s operation = some s') : s'.Inv ∧ s.constructed ≤ s'.constructed := by
  cases operation with
  | factoryGet name =>
    injection hstep with hstep
    have hdrawn : Inv { s with drawn := s.drawn + 1 + 1 } := ⟨hinv.registered, hinv.fresh⟩
    have hconstructed := constructed_factoryGetParent hdrawn name (generator s.drawn)
      (generator (s.drawn + 1)) 0
    rw [← hstep]
    apply And.intro (hdrawn.factoryGetParent ..)
    apply Nat.le_trans (Nat.le_succ _) hconstructed.ge
  | factoryGetSpan name traceId spanId =>
    injection hstep with hstep
    rw [← hstep]
    apply And.intro (hinv.factoryGetParent ..)
    apply Nat.le_trans (Nat.le_succ _) (constructed_factoryGetParent hinv ..).ge
  | factoryGetParent name traceId spanId parentSpanId =>
    injection hstep with hstep
    rw [← hstep]
    apply And.intro (hinv.factoryGetParent ..)
    apply Nat.le_trans (Nat.le_succ _) (constructed_factoryGetParent hinv ..).ge
  | makeChild p name =>
    have ⟨r, hchild, hr⟩ := Option.map_eq_some_iff.mp hstep
    have ⟨parent, _, _, hget⟩ := makeChild_eq_some.mp hchild
    rw [← hr, ← hget]
    apply And.intro (hinv.factoryGetParent ..)
    apply Nat.le_trans (Nat.le_succ _) (constructed_factoryGetParent hinv ..).ge
  | erase traceId spanId =>
    injection hstep with hstep
    rw [← hstep]
    exact ⟨hinv.erase traceId spanId, (constructed_erase s traceId spanId).ge⟩

theorem run_inv (hrun : run generator operations = some s) : s.Inv := by
  apply Machine.run_invariant _ create_inv hrun
  intro s operation s' hinv hstep
  exact (hinv.step hstep).1

theorem constructed_le {s' : Tracing} (hinv : s.Inv)
    (hrun : Machine.run (step generator) s operations = some s') : s.constructed ≤ s'.constructed := by
  have hkept : s'.Inv ∧ s.constructed ≤ s'.constructed := by
    apply Machine.run_invariant (P := fun s' => s'.Inv ∧ s.constructed ≤ s'.constructed) _ _ hrun
    . intro m operation m' hm hstep
      have ⟨hinv', hle⟩ := hm.1.step hstep
      exact ⟨hinv', Nat.le_trans hm.2 hle⟩
    . exact ⟨hinv, Nat.le_refl _⟩
  exact hkept.2

structure ChildCall (generator : Nat → Int) (operations : List Operation) where
  before : List Operation
  state : Tracing
  trace : Nat
  name : String
  parent : Trace
  isCall : before ++ [Operation.makeChild trace name] <+: operations
  reached : run generator before = some state
  lives : state.heap trace = some parent

namespace ChildCall

variable (call : ChildCall generator operations)

def Returns (p : Nat) (child : Trace) : Prop :=
  ∃ s', call.state.makeChild call.trace call.name = some (p, s') ∧ s'.heap p = some child

def childIds : Int × Int := (call.parent.traceId, call.parent.spanId + 1)

end ChildCall

structure ChildrenDistinct (generator : Nat → Int) (operations : List Operation) : Prop where
  returns : ∀ call : ChildCall generator operations, ∃ p child, call.Returns p child ∧
    child.name = call.name ∧ child.traceId = call.parent.traceId ∧
    child.parentSpanId = call.parent.spanId ∧ ∀ ids, call.state.recorder.find ids ≠ some p
  distinct : ∀ call call' : ChildCall generator operations, call.before ≠ call'.before →
    ∀ p child p' child', call.Returns p child → call'.Returns p' child' →
      p ≠ p' ∧ child.ids ≠ child'.ids

structure SpansUnused (generator : Nat → Int) (operations : List Operation) : Prop where
  fits : ∀ call : ChildCall generator operations, call.parent.spanId + 1 < 2 ^ 63
  unregistered : ∀ call : ChildCall generator operations, call.state.recorder.find call.childIds = none
  once : ∀ call call' : ChildCall generator operations, call.before ≠ call'.before →
    call.parent.ids ≠ call'.parent.ids

namespace ChildCall

variable {call call' : ChildCall generator operations} {p p' : Nat} {child child' : Trace}

theorem returns_of_unregistered (call : ChildCall generator operations)
    (hfits : call.parent.spanId + 1 < 2 ^ 63)
    (hfind : call.state.recorder.find call.childIds = none)
    : call.Returns call.state.constructed
        ⟨call.name, call.parent.traceId, call.parent.spanId + 1, call.parent.spanId⟩ := by
  refine ⟨_, makeChild_eq_some.mpr ⟨call.parent, call.lives, hfits, factoryGetParent_of_none hfind⟩, ?_⟩
  apply Function.update_self

theorem Returns.eq (h : call.Returns p child) (h' : call.Returns p' child') : p = p' ∧ child = child' := by
  have ⟨s', hmake, hp⟩ := h
  have ⟨s'', hmake', hp'⟩ := h'
  rw [hmake] at hmake'
  injection hmake' with hmake'
  injection hmake' with hpointer hstate
  rw [← hpointer, ← hstate, hp] at hp'
  injection hp' with hp'
  exact ⟨hpointer, hp'⟩

theorem Returns.ids_eq (h : call.Returns p child) : child.ids = call.childIds := by
  have hinv := run_inv call.reached
  have ⟨s', hmake, hp⟩ := h
  have ⟨parent, hparent, hfits, hget⟩ := makeChild_eq_some.mp hmake
  rw [call.lives] at hparent
  injection hparent with hparent
  subst hparent
  cases hfind : call.state.recorder.find call.childIds with
  | none =>
    rw [(h.eq (returns_of_unregistered call hfits hfind)).2]
    rfl
  | some q =>
    rw [factoryGetParent_of_some hinv hfind] at hget
    injection hget with hpointer hstate
    have ⟨trace, hq, hids⟩ := hinv.registered _ _ hfind
    rw [← hpointer, ← hstate, hq] at hp
    injection hp with hp
    rw [← hp, hids]

theorem Returns.unregistered (h : call.Returns p child)
    (hnew : ∀ ids, call.state.recorder.find ids ≠ some p)
    : call.parent.spanId + 1 < 2 ^ 63 ∧ call.state.recorder.find call.childIds = none := by
  have ⟨s', hmake, _⟩ := h
  have ⟨parent, hparent, hfits, hget⟩ := makeChild_eq_some.mp hmake
  rw [call.lives] at hparent
  injection hparent with hparent
  subst hparent
  apply And.intro hfits
  cases hfind : call.state.recorder.find call.childIds with
  | none => rfl
  | some q =>
    rw [factoryGetParent_of_some (run_inv call.reached) hfind] at hget
    injection hget with hpointer _
    rw [hpointer] at hfind
    exact absurd hfind (hnew call.childIds)

theorem before_or_before (hne : call.before ≠ call'.before)
    : call.before ++ [Operation.makeChild call.trace call.name] <+: call'.before ∨
        call'.before ++ [Operation.makeChild call'.trace call'.name] <+: call.before := by
  have hbefore := (List.prefix_append _ _).trans call.isCall
  have hbefore' := (List.prefix_append _ _).trans call'.isCall
  cases Nat.lt_trichotomy call.before.length call'.before.length with
  | inl hlt =>
    apply Or.inl
    apply List.prefix_of_prefix_length_le call.isCall hbefore'
    rw [List.length_append]
    exact hlt
  | inr h =>
    cases h with
    | inl heq =>
      apply absurd _ hne
      apply (List.prefix_of_prefix_length_le hbefore hbefore' heq.le).eq_of_length heq
    | inr hgt =>
      apply Or.inr
      apply List.prefix_of_prefix_length_le call'.isCall hbefore
      rw [List.length_append]
      exact hgt

theorem constructed_lt
    (hbefore : call.before ++ [Operation.makeChild call.trace call.name] <+: call'.before)
    : call.state.constructed < call'.state.constructed := by
  have ⟨rest, heq⟩ := hbefore
  have hrun := call'.reached
  have hinv := run_inv call.reached
  unfold run at hrun
  rw [← heq, List.append_assoc, Machine.run_append_eq_some] at hrun
  have ⟨m, hm, hrun⟩ := hrun
  have heq : call.state = m := Option.some.inj (call.reached.symm.trans hm)
  subst heq
  rw [List.singleton_append, Machine.run_cons_eq_some] at hrun
  have ⟨m', hstep, hrun⟩ := hrun
  have ⟨r, hchild, hr⟩ := Option.map_eq_some_iff.mp hstep
  have ⟨parent, _, _, hget⟩ := makeChild_eq_some.mp hchild
  have hconstructed := constructed_factoryGetParent hinv call.name parent.traceId (parent.spanId + 1)
    parent.spanId
  have hle := constructed_le (hinv.step hstep).1 hrun
  rw [hget, hr] at hconstructed
  omega

end ChildCall

theorem childrenDistinct_iff (generator : Nat → Int) (operations : List Operation)
    : ChildrenDistinct generator operations ↔ SpansUnused generator operations := by
  constructor
  . intro h
    constructor
    . intro call
      have ⟨p, child, hreturns, _, _, _, hnew⟩ := h.returns call
      exact (hreturns.unregistered hnew).1
    . intro call
      have ⟨p, child, hreturns, _, _, _, hnew⟩ := h.returns call
      exact (hreturns.unregistered hnew).2
    . intro call call' hne heq
      have ⟨p, child, hreturns, _⟩ := h.returns call
      have ⟨p', child', hreturns', _⟩ := h.returns call'
      apply (h.distinct call call' hne _ _ _ _ hreturns hreturns').2
      injection heq with htrace hspan
      rw [hreturns.ids_eq, hreturns'.ids_eq, ChildCall.childIds, ChildCall.childIds, htrace, hspan]
  . intro h
    constructor
    . intro call
      have hreturns := call.returns_of_unregistered (h.fits call) (h.unregistered call)
      refine ⟨_, _, hreturns, rfl, rfl, rfl, ?_⟩
      intro ids hfind
      exact absurd ((run_inv call.reached).registered_lt hfind) (Nat.lt_irrefl _)
    . intro call call' hne p child p' child' hreturns hreturns'
      constructor
      . rw [(hreturns.eq (call.returns_of_unregistered (h.fits call) (h.unregistered call))).1,
          (hreturns'.eq (call'.returns_of_unregistered (h.fits call') (h.unregistered call'))).1]
        cases ChildCall.before_or_before hne with
        | inl hbefore => exact (ChildCall.constructed_lt hbefore).ne
        | inr hbefore => exact (ChildCall.constructed_lt hbefore).ne'
      . rw [hreturns.ids_eq, hreturns'.ids_eq]
        intro heq
        apply h.once call call' hne
        unfold ChildCall.childIds at heq
        unfold Trace.ids
        rw [Prod.mk.injEq] at heq ⊢
        omega

def twoChildren : List Operation := [.factoryGetSpan "get" 1 1, .makeChild 0 "read", .makeChild 0 "write"]

def secondChild : ChildCall (fun n => n) twoChildren where
  before := [.factoryGetSpan "get" 1 1, .makeChild 0 "read"]
  state := (((create.factoryGetSpan "get" 1 1).2).factoryGetParent "read" 1 2 1).2
  trace := 0
  name := "write"
  parent := ⟨"get", 1, 1, 0⟩
  isCall := List.prefix_refl _
  reached := rfl
  lives := rfl

-- The second child is the first one.
theorem not_childrenDistinct_twoChildren : ¬ChildrenDistinct (fun n => n) twoChildren := by
  intro h
  have ⟨p, child, hreturns, _, _, _, hnew⟩ := h.returns secondChild
  have hregistered : secondChild.state.recorder.find secondChild.childIds = some 1 := rfl
  rw [(hreturns.unregistered hnew).2] at hregistered
  contradiction

end Tracing
end Claire
