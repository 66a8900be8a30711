import ClaireCommon.Metrics.Impl.HistogramRecorder

/-!
This module contains what threads get that call `FactoryGet` at the same time.
-/

namespace Claire

variable {π τ : Type}

namespace FactoryGet

def held : FactoryGet π → Option (String × π)
  | .register name histogram => some (name, histogram)
  | .delete name _ histogramToDelete => some (name, histogramToDelete)
  | _ => none

def returned : FactoryGet π → Option (String × π)
  | .delete name histogram _ => some (name, histogram)
  | .ret name histogram => some (name, histogram)
  | _ => none

end FactoryGet

namespace Factory

def Holds (s : Factory π τ) (thread : τ) (name : String) (histogram : π) : Prop :=
  (s.calls thread).bind FactoryGet.held = some (name, histogram)

structure Inv (s : Factory π τ) : Prop where
  registered : ∀ name p, s.recorder.findHistogram name = some p → s.heap p = some name
  returned : ∀ thread name p, (s.calls thread).bind FactoryGet.returned = some (name, p) →
    s.recorder.findHistogram name = some p
  held : ∀ thread name p, s.Holds thread name p →
    s.heap p = some name ∧ ∀ name', s.recorder.findHistogram name' ≠ some p
  exclusive : ∀ thread thread' name name' p, s.Holds thread name p → s.Holds thread' name' p →
    thread = thread'
  covered : ∀ p, s.heap p ≠ none →
    (∃ name, s.recorder.findHistogram name = some p) ∨ ∃ thread name, s.Holds thread name p

theorem create_inv : (create : Factory π τ).Inv := by
  constructor
  . intro name p h
    contradiction
  . intro thread name p h
    contradiction
  . intro thread name p h
    contradiction
  . intro thread thread' name name' p h
    contradiction
  . intro p h
    exact absurd rfl h

theorem holds_register {s : Factory π τ} {thread : τ} {name : String} {p : π}
    (hcall : s.calls thread = some (.register name p)) : s.Holds thread name p := by
  unfold Holds
  rw [hcall]
  rfl

theorem holds_delete {s : Factory π τ} {thread : τ} {name : String} {p q : π}
    (hcall : s.calls thread = some (.delete name q p)) : s.Holds thread name p := by
  unfold Holds
  rw [hcall]
  rfl

theorem Inv.ne_of_holds {s : Factory π τ} (hinv : s.Inv) {thread thread' : τ} {name name' : String}
    {p p' : π} (h : s.Holds thread name p) (h' : s.Holds thread' name' p') (hne : thread' ≠ thread)
    : p' ≠ p := by
  intro heq
  rw [heq] at h'
  exact hne (hinv.exclusive _ _ _ _ p h' h)

theorem Holds.thread_ne {s : Factory π τ} {thread thread' : τ} {name name' : String} {p p' : π}
    (h : s.Holds thread name p) (h' : s.Holds thread' name' p') (hne : p' ≠ p) : thread' ≠ thread := by
  intro heq
  unfold Holds at h h'
  rw [heq, h] at h'
  injection h' with h'
  injection h' with _ hp
  exact hne hp.symm

theorem returned_of_eq {s : Factory π τ} {call : Option (FactoryGet π)} {name : String} {p : π}
    (hreturned : call.bind FactoryGet.returned = some (name, p))
    (hfind : s.recorder.findHistogram name = some p) (name' : String) (p' : π)
    (h : call.bind FactoryGet.returned = some (name', p'))
    : s.recorder.findHistogram name' = some p' := by
  rw [hreturned] at h
  injection h with h
  injection h with hname hp
  rw [← hname, ← hp]
  exact hfind

variable [DecidableEq τ]

theorem calls_goOn (s : Factory π τ) (thread : τ) (call : Option (FactoryGet π)) (thread' : τ)
    : (s.goOn thread call).calls thread' = if thread' = thread then call else s.calls thread' :=
  Function.update_apply _ _ _ _

theorem holds_goOn {s : Factory π τ} {thread thread' : τ} {call : Option (FactoryGet π)}
    {name : String} {p : π}
    : (s.goOn thread call).Holds thread' name p ↔
        if thread' = thread then call.bind FactoryGet.held = some (name, p)
        else s.Holds thread' name p := by
  unfold Holds
  rw [calls_goOn]
  split <;> rfl

theorem Inv.goOn {s : Factory π τ} (hinv : s.Inv) {thread : τ} {before call : Option (FactoryGet π)}
    (hcall : s.calls thread = before) (hheld : call.bind FactoryGet.held = before.bind FactoryGet.held)
    (hreturned : ∀ name p, call.bind FactoryGet.returned = some (name, p) →
      s.recorder.findHistogram name = some p)
    : (s.goOn thread call).Inv := by
  have hholds : ∀ thread' name p, (s.goOn thread call).Holds thread' name p ↔
      s.Holds thread' name p := by
    intro thread' name p
    rw [holds_goOn]
    split
    . next heq =>
      unfold Holds
      rw [hheld, heq, hcall]
    . rfl
  constructor
  . exact hinv.registered
  . intro thread' name p hret
    rw [calls_goOn] at hret
    split at hret
    . exact hreturned name p hret
    . exact hinv.returned thread' name p hret
  . intro thread' name p h
    exact hinv.held thread' name p ((hholds _ _ _).mp h)
  . intro thread₁ thread₂ name₁ name₂ p h₁ h₂
    exact hinv.exclusive _ _ _ _ p ((hholds _ _ _).mp h₁) ((hholds _ _ _).mp h₂)
  . intro p hp
    cases hinv.covered p hp with
    | inl h => exact Or.inl h
    | inr h =>
      have ⟨thread', name, hholder⟩ := h
      exact Or.inr ⟨thread', name, (hholds _ _ _).mpr hholder⟩

theorem holds_ret {s : Factory π τ} {thread thread' : τ} {name name' : String} {p p' : π}
    : (s.goOn thread (some (.ret name p))).Holds thread' name' p' ↔
        thread' ≠ thread ∧ s.Holds thread' name' p' := by
  rw [holds_goOn]
  split
  . next heq => simp [heq, FactoryGet.held]
  . next hne => simp [hne]

variable [DecidableEq π]

-- What a step does, `register` with a name that is in use is a `duplicate`.
inductive Stepped (s s' : Factory π τ) : Label π τ → Prop
  | call {thread : τ} {name : String} (hcall : s.calls thread = none)
      (heq : s' = s.goOn thread (some (.find name))) : Stepped s s' (.call thread name)
  | hit {thread : τ} {name : String} {p : π} (hcall : s.calls thread = some (.find name))
      (hfind : s.recorder.findHistogram name = some p)
      (heq : s' = s.goOn thread (some (.ret name p))) : Stepped s s' (.find thread)
  | miss {thread : τ} {name : String} (hcall : s.calls thread = some (.find name))
      (heq : s' = s.goOn thread (some (.construct name))) : Stepped s s' (.find thread)
  | construct {thread : τ} {name : String} {p : π} (hcall : s.calls thread = some (.construct name))
      (hfresh : s.heap p = none)
      (heq : s' = { s.goOn thread (some (.register name p)) with
        heap := Function.update s.heap p (some name) }) : Stepped s s' (.construct thread p)
  | register {thread : τ} {name : String} {p : π} (hcall : s.calls thread = some (.register name p))
      (hnone : s.recorder.findHistogram name = none)
      (heq : s' = { s.goOn thread (some (.ret name p)) with
        recorder := ⟨s.recorder.histograms.insert name p⟩ }) : Stepped s s' (.register thread)
  | duplicate {thread : τ} {name : String} {p q : π}
      (hcall : s.calls thread = some (.register name p))
      (hfind : s.recorder.findHistogram name = some q)
      (heq : s' = s.goOn thread (some (.delete name q p))) : Stepped s s' (.register thread)
  | delete {thread : τ} {name : String} {p q : π} (hcall : s.calls thread = some (.delete name q p))
      (heq : s' = { s.goOn thread (some (.ret name q)) with
        heap := Function.update s.heap p none }) : Stepped s s' (.delete thread p)
  | ret {thread : τ} {name : String} {p : π} (hcall : s.calls thread = some (.ret name p))
      (heq : s' = s.goOn thread none) : Stepped s s' (.ret thread name p)

theorem register_eq_some {s s' : Factory π τ} (hinv : s.Inv) {thread : τ} {name : String} {p : π}
    (hcall : s.calls thread = some (.register name p)) (h : s.register thread name p = some s')
    : Stepped s s' (.register thread) := by
  have ⟨hheap, hunregistered⟩ := hinv.held _ _ _ (holds_register hcall)
  unfold register at h
  rw [hheap] at h
  dsimp only at h
  cases hfind : s.recorder.findHistogram name with
  | none =>
    have hresult : s.recorder.registerOrDeleteDuplicate name p =
        (p, none, ⟨s.recorder.histograms.insert name p⟩) := by
      unfold HistogramRecorder.findHistogram at hfind
      unfold HistogramRecorder.registerOrDeleteDuplicate
      rw [hfind]
    rw [hresult] at h
    injection h with h
    exact .register hcall hfind h.symm
  | some q =>
    have hne : p ≠ q := by
      intro heq
      rw [heq] at hunregistered
      exact hunregistered name hfind
    have hresult : s.recorder.registerOrDeleteDuplicate name p = (q, some p, s.recorder) := by
      unfold HistogramRecorder.findHistogram at hfind
      unfold HistogramRecorder.registerOrDeleteDuplicate
      rw [hfind]
      dsimp only
      rw [if_neg hne]
    rw [hresult] at h
    injection h with h
    exact .duplicate hcall hfind h.symm

theorem step_cases {s s' : Factory π τ} (hinv : s.Inv) {label : Label π τ}
    (h : step s label = some s') : Stepped s s' label := by
  cases label with
  | call thread name =>
    unfold step at h
    dsimp only at h
    split at h
    . next hcall =>
      injection h with h
      exact .call hcall h.symm
    . contradiction
  | find thread =>
    unfold step at h
    dsimp only at h
    split at h
    . next name hcall =>
      injection h with h
      unfold find at h
      split at h
      . next p hfind => exact .hit hcall hfind h.symm
      . exact .miss hcall h.symm
    . contradiction
  | construct thread p =>
    unfold step at h
    dsimp only at h
    split at h
    . next name hcall =>
      unfold construct at h
      split at h
      . contradiction
      . next hfresh =>
        injection h with h
        exact .construct hcall hfresh h.symm
    . contradiction
  | register thread =>
    unfold step at h
    dsimp only at h
    split at h
    . next name p hcall => exact register_eq_some hinv hcall h
    . contradiction
  | delete thread p =>
    unfold step at h
    dsimp only at h
    split at h
    . next name toReturn toDelete hcall =>
      split at h
      . next heq =>
        injection h with h
        rw [heq] at hcall
        exact .delete hcall h.symm
      . contradiction
    . contradiction
  | ret thread name p =>
    unfold step at h
    dsimp only at h
    split at h
    . next hcall =>
      injection h with h
      exact .ret hcall h.symm
    . contradiction

theorem Inv.construct {s s' : Factory π τ} (hinv : s.Inv) {thread : τ} {name : String} {p : π}
    (hcall : s.calls thread = some (.construct name)) (hfresh : s.heap p = none)
    (heq : s' = { s.goOn thread (some (.register name p)) with
      heap := Function.update s.heap p (some name) }) : s'.Inv := by
  have hheap : ∀ p', s'.heap p' = if p' = p then some name else s.heap p' := by
    intro p'
    rw [heq]
    exact Function.update_apply _ _ _ _
  have hfind : ∀ name', s'.recorder.findHistogram name' = s.recorder.findHistogram name' := by
    intro name'
    rw [heq]
    rfl
  have hcalls : ∀ thread', s'.calls thread' =
      if thread' = thread then some (.register name p) else s.calls thread' := by
    intro thread'
    rw [heq]
    apply calls_goOn
  have hholds : ∀ thread' name' p', s'.Holds thread' name' p' ↔
      (thread' = thread ∧ name' = name ∧ p' = p) ∨ (thread' ≠ thread ∧ s.Holds thread' name' p') := by
    intro thread' name' p'
    rw [heq]
    apply Iff.trans holds_goOn
    split
    . next hthread => simp [hthread, FactoryGet.held, eq_comm]
    . next hthread => simp [hthread]
  have hold : ∀ p' name', s.heap p' = some name' → p' ≠ p := by
    intro p' name' hp' heq
    rw [heq, hfresh] at hp'
    contradiction
  constructor
  . intro name' p' h
    rw [hfind] at h
    have hp' := hinv.registered name' p' h
    rw [hheap, if_neg (hold p' name' hp'), hp']
  . intro thread' name' p' hret
    rw [hcalls] at hret
    rw [hfind]
    split at hret
    . contradiction
    . exact hinv.returned thread' name' p' hret
  . intro thread' name' p' h
    cases (hholds _ _ _).mp h with
    | inl h =>
      have ⟨_, hname, hp⟩ := h
      rw [hname, hp, hheap, if_pos rfl]
      refine ⟨rfl, ?_⟩
      intro name'' hregistered
      rw [hfind] at hregistered
      exact hold p name'' (hinv.registered name'' p hregistered) rfl
    | inr h =>
      have ⟨hp', hunregistered⟩ := hinv.held thread' name' p' h.2
      rw [hheap, if_neg (hold p' name' hp')]
      refine ⟨hp', ?_⟩
      intro name''
      rw [hfind]
      exact hunregistered name''
  . intro thread₁ thread₂ name₁ name₂ p' h₁ h₂
    have hlive : ∀ thread' name', s.Holds thread' name' p' → p' ≠ p := by
      intro thread' name' h
      exact hold p' name' (hinv.held thread' name' p' h).1
    cases (hholds _ _ _).mp h₁ with
    | inl h₁ =>
      cases (hholds _ _ _).mp h₂ with
      | inl h₂ => rw [h₁.1, h₂.1]
      | inr h₂ => exact absurd h₁.2.2 (hlive _ _ h₂.2)
    | inr h₁ =>
      cases (hholds _ _ _).mp h₂ with
      | inl h₂ => exact absurd h₂.2.2 (hlive _ _ h₁.2)
      | inr h₂ => exact hinv.exclusive _ _ _ _ p' h₁.2 h₂.2
  . intro p' hp'
    rw [hheap] at hp'
    by_cases hnew : p' = p
    . apply Or.inr
      exact ⟨thread, name, (hholds _ _ _).mpr (Or.inl ⟨rfl, rfl, hnew⟩)⟩
    . rw [if_neg hnew] at hp'
      cases hinv.covered p' hp' with
      | inl h =>
        have ⟨name', hname'⟩ := h
        apply Or.inl
        exact ⟨name', (hfind name').trans hname'⟩
      | inr h =>
        have ⟨thread', name', hholder⟩ := h
        have hne : thread' ≠ thread := by
          intro heq
          unfold Holds at hholder
          rw [heq, hcall] at hholder
          contradiction
        apply Or.inr
        exact ⟨thread', name', (hholds _ _ _).mpr (Or.inr ⟨hne, hholder⟩)⟩

theorem Inv.register {s s' : Factory π τ} (hinv : s.Inv) {thread : τ} {name : String} {p : π}
    (hcall : s.calls thread = some (.register name p))
    (hnone : s.recorder.findHistogram name = none)
    (heq : s' = { s.goOn thread (some (.ret name p)) with
      recorder := ⟨s.recorder.histograms.insert name p⟩ }) : s'.Inv := by
  have hold := holds_register hcall
  have ⟨hlive, hunregistered⟩ := hinv.held _ _ _ hold
  have hfind : ∀ name', s'.recorder.findHistogram name' =
      if name' = name then some p else s.recorder.findHistogram name' := by
    intro name'
    rw [heq]
    exact UnorderedMap.find_insert hnone p name'
  have hcalls : ∀ thread', s'.calls thread' =
      if thread' = thread then some (.ret name p) else s.calls thread' := by
    intro thread'
    rw [heq]
    apply calls_goOn
  have hholds : ∀ thread' name' p', s'.Holds thread' name' p' ↔
      thread' ≠ thread ∧ s.Holds thread' name' p' := by
    intro thread' name' p'
    rw [heq]
    exact holds_ret
  have hheap : s'.heap = s.heap := by rw [heq]; rfl
  constructor
  . intro name' p' h
    rw [hfind] at h
    rw [hheap]
    split at h
    . next hname =>
      injection h with h
      rw [← h, hname]
      exact hlive
    . exact hinv.registered name' p' h
  . intro thread' name' p' hret
    rw [hcalls] at hret
    rw [hfind]
    split at hret
    . injection hret with hret
      injection hret with hname hp
      rw [if_pos hname.symm, hp]
    . have hold' := hinv.returned thread' name' p' hret
      rw [if_neg]
      . exact hold'
      . intro hname
        rw [hname, hnone] at hold'
        contradiction
  . intro thread' name' p' h
    have ⟨hne, hholder⟩ := (hholds _ _ _).mp h
    have ⟨hp', hunregistered'⟩ := hinv.held thread' name' p' hholder
    rw [hheap]
    refine ⟨hp', ?_⟩
    intro name'' hregistered
    rw [hfind] at hregistered
    split at hregistered
    . injection hregistered with hregistered
      exact hinv.ne_of_holds hold hholder hne hregistered.symm
    . exact hunregistered' name'' hregistered
  . intro thread₁ thread₂ name₁ name₂ p' h₁ h₂
    exact hinv.exclusive _ _ _ _ p' ((hholds _ _ _).mp h₁).2 ((hholds _ _ _).mp h₂).2
  . intro p' hp'
    rw [hheap] at hp'
    by_cases hnew : p' = p
    . apply Or.inl
      exists name
      rw [hfind, if_pos rfl, hnew]
    . cases hinv.covered p' hp' with
      | inl h =>
        have ⟨name', hname'⟩ := h
        apply Or.inl
        exists name'
        rw [hfind, if_neg, hname']
        intro heq
        rw [heq, hnone] at hname'
        contradiction
      | inr h =>
        have ⟨thread', name', hholder⟩ := h
        apply Or.inr
        exact ⟨thread', name', (hholds _ _ _).mpr ⟨hold.thread_ne hholder hnew, hholder⟩⟩

theorem Inv.delete {s s' : Factory π τ} (hinv : s.Inv) {thread : τ} {name : String} {p q : π}
    (hcall : s.calls thread = some (.delete name q p))
    (heq : s' = { s.goOn thread (some (.ret name q)) with
      heap := Function.update s.heap p none }) : s'.Inv := by
  have hold := holds_delete hcall
  have ⟨hlive, hunregistered⟩ := hinv.held _ _ _ hold
  have hfind : ∀ name', s'.recorder.findHistogram name' = s.recorder.findHistogram name' := by
    intro name'
    rw [heq]
    rfl
  have hcalls : ∀ thread', s'.calls thread' =
      if thread' = thread then some (.ret name q) else s.calls thread' := by
    intro thread'
    rw [heq]
    apply calls_goOn
  have hholds : ∀ thread' name' p', s'.Holds thread' name' p' ↔
      thread' ≠ thread ∧ s.Holds thread' name' p' := by
    intro thread' name' p'
    rw [heq]
    exact holds_ret
  have hheap : ∀ p', s'.heap p' = if p' = p then none else s.heap p' := by
    intro p'
    rw [heq]
    exact Function.update_apply _ _ _ _
  constructor
  . intro name' p' h
    rw [hfind] at h
    rw [hheap, if_neg]
    . exact hinv.registered name' p' h
    . intro hp
      rw [hp] at h
      exact hunregistered name' h
  . intro thread' name' p' hret
    rw [hcalls] at hret
    rw [hfind]
    split at hret
    . apply hinv.returned thread name' p'
      rw [hcall]
      exact hret
    . exact hinv.returned thread' name' p' hret
  . intro thread' name' p' h
    have ⟨hne, hholder⟩ := (hholds _ _ _).mp h
    have ⟨hp', hunregistered'⟩ := hinv.held thread' name' p' hholder
    rw [hheap, if_neg (hinv.ne_of_holds hold hholder hne)]
    refine ⟨hp', ?_⟩
    intro name''
    rw [hfind]
    exact hunregistered' name''
  . intro thread₁ thread₂ name₁ name₂ p' h₁ h₂
    exact hinv.exclusive _ _ _ _ p' ((hholds _ _ _).mp h₁).2 ((hholds _ _ _).mp h₂).2
  . intro p' hp'
    rw [hheap] at hp'
    split at hp'
    . contradiction
    . next hne =>
      cases hinv.covered p' hp' with
      | inl h =>
        have ⟨name', hname'⟩ := h
        exact Or.inl ⟨name', (hfind name').trans hname'⟩
      | inr h =>
        have ⟨thread', name', hholder⟩ := h
        apply Or.inr
        exact ⟨thread', name', (hholds _ _ _).mpr ⟨hold.thread_ne hholder hne, hholder⟩⟩

theorem step_inv {s s' : Factory π τ} {label : Label π τ} (hinv : s.Inv) (h : step s label = some s')
    : s'.Inv := by
  cases step_cases hinv h with
  | call hcall heq =>
    rw [heq]
    refine hinv.goOn hcall (by rfl) ?_
    intro name p hret
    contradiction
  | hit hcall hfind heq =>
    rw [heq]
    exact hinv.goOn hcall (by rfl) (returned_of_eq rfl hfind)
  | miss hcall heq =>
    rw [heq]
    refine hinv.goOn hcall (by rfl) ?_
    intro name p hret
    contradiction
  | construct hcall hfresh heq => exact hinv.construct hcall hfresh heq
  | register hcall hnone heq => exact hinv.register hcall hnone heq
  | duplicate hcall hfind heq =>
    rw [heq]
    exact hinv.goOn hcall (by rfl) (returned_of_eq rfl hfind)
  | delete hcall heq => exact hinv.delete hcall heq
  | ret hcall heq =>
    rw [heq]
    refine hinv.goOn hcall (by rfl) ?_
    intro name p hret
    contradiction

theorem run_inv {s s' : Factory π τ} {labels : List (Label π τ)} (hinv : s.Inv)
    (hrun : run s labels = some s') : s'.Inv :=
  Machine.run_invariant (fun _ _ _ => step_inv) hinv hrun

theorem step_findHistogram {s s' : Factory π τ} {label : Label π τ} (hinv : s.Inv)
    (h : step s label = some s') {name : String} {p : π}
    (hfind : s.recorder.findHistogram name = some p) : s'.recorder.findHistogram name = some p := by
  cases step_cases hinv h with
  | register hcall hnone heq =>
    rw [heq]
    apply Eq.trans (UnorderedMap.find_insert hnone _ _)
    rw [if_neg]
    . exact hfind
    . intro hname
      rw [hname, hnone] at hfind
      contradiction
  | call hcall heq => rw [heq]; exact hfind
  | hit hcall hfind' heq => rw [heq]; exact hfind
  | miss hcall heq => rw [heq]; exact hfind
  | construct hcall hfresh heq => rw [heq]; exact hfind
  | duplicate hcall hfind' heq => rw [heq]; exact hfind
  | delete hcall heq => rw [heq]; exact hfind
  | ret hcall heq => rw [heq]; exact hfind

theorem run_findHistogram {s s' : Factory π τ} {labels : List (Label π τ)} (hinv : s.Inv)
    (hrun : run s labels = some s') {name : String} {p : π}
    (hfind : s.recorder.findHistogram name = some p) : s'.recorder.findHistogram name = some p := by
  have hstep : ∀ (s : Factory π τ) (label : Label π τ) (s' : Factory π τ),
      s.Inv ∧ s.recorder.findHistogram name = some p → step s label = some s' →
      s'.Inv ∧ s'.recorder.findHistogram name = some p := by
    intro s label s' hs h
    exact ⟨step_inv hs.1 h, step_findHistogram hs.1 h hs.2⟩
  exact (Machine.run_invariant hstep ⟨hinv, hfind⟩ hrun).2

theorem findHistogram_of_ret {s s' : Factory π τ} (hinv : s.Inv) {thread : τ} {name : String} {p : π}
    (h : step s (.ret thread name p) = some s') : s.recorder.findHistogram name = some p := by
  cases step_cases hinv h with
  | ret hcall heq =>
    apply hinv.returned thread
    rw [hcall]
    rfl

theorem findHistogram_of_ret_mem {s s' : Factory π τ} {labels : List (Label π τ)} (hinv : s.Inv)
    (hrun : run s labels = some s') {thread : τ} {name : String} {p : π}
    (hmem : .ret thread name p ∈ labels) : s'.recorder.findHistogram name = some p := by
  have ⟨as, bs, heq⟩ := List.append_of_mem hmem
  rw [heq] at hrun
  have ⟨m, m', hm, hret, hrun⟩ := Machine.run_append_cons_eq_some.mp hrun
  have hminv := run_inv hinv hm
  have hfind := findHistogram_of_ret hminv hret
  exact run_findHistogram (step_inv hminv hret) hrun (step_findHistogram hminv hret hfind)

theorem ne_of_delete {s s' : Factory π τ} (hinv : s.Inv) {thread : τ} {p : π}
    (h : step s (.delete thread p) = some s') (name : String)
    : s.heap p ≠ none ∧ s.recorder.findHistogram name ≠ some p := by
  cases step_cases hinv h with
  | delete hcall heq =>
    have ⟨hheap, hunregistered⟩ := hinv.held _ _ _ (holds_delete hcall)
    rw [hheap]
    exact ⟨by simp, hunregistered name⟩

theorem delete_not_mem {s s' : Factory π τ} {labels : List (Label π τ)} (hinv : s.Inv)
    (hrun : run s labels = some s') {name : String} {p : π}
    (hfind : s.recorder.findHistogram name = some p) (thread : τ) : .delete thread p ∉ labels := by
  intro hmem
  have ⟨as, bs, heq⟩ := List.append_of_mem hmem
  rw [heq] at hrun
  have ⟨m, m', hm, hdelete, _⟩ := Machine.run_append_cons_eq_some.mp hrun
  exact (ne_of_delete (run_inv hinv hm) hdelete name).2 (run_findHistogram hinv hm hfind)

def Label.deletes (p : π) : Label π τ → Bool
  | .delete _ histogram => histogram = p
  | _ => false

-- How often the histogram at `p` has been deleted, or can still be
def deletions (labels : List (Label π τ)) (s : Factory π τ) (p : π) : Nat :=
  labels.countP (Label.deletes p) + if s.heap p = none then 0 else 1

theorem step_deletions {s s' : Factory π τ} {label : Label π τ} (hinv : s.Inv)
    (h : step s label = some s') {p : π} (hlabel : ∀ thread, label ≠ .construct thread p)
    (labels : List (Label π τ)) : deletions (labels ++ [label]) s' p = deletions labels s p := by
  unfold deletions
  rw [List.countP_append, List.countP_singleton]
  cases step_cases hinv h with
  | @delete thread name p' q hcall heq =>
    have ⟨hheap, _⟩ := hinv.held _ _ _ (holds_delete hcall)
    have hheap' : s'.heap p = if p = p' then none else s.heap p := by
      rw [heq]
      exact Function.update_apply _ _ _ _
    rw [hheap', Label.deletes]
    by_cases hp : p' = p
    . rw [← hp, hheap]
      simp
    . have hp' : p ≠ p' := fun heq => hp heq.symm
      simp [hp, hp']
  | @construct thread name p' hcall hfresh heq =>
    have hp : p ≠ p' := by
      intro heq
      rw [← heq] at hlabel
      exact hlabel thread rfl
    have hheap' : s'.heap p = s.heap p := by
      rw [heq]
      exact Function.update_of_ne hp _ _
    rw [hheap']
    rfl
  | call hcall heq => rw [heq]; rfl
  | hit hcall hfind heq => rw [heq]; rfl
  | miss hcall heq => rw [heq]; rfl
  | register hcall hnone heq => rw [heq]; rfl
  | duplicate hcall hfind heq => rw [heq]; rfl
  | ret hcall heq => rw [heq]; rfl

theorem run_deletions {s s' : Factory π τ} {labels : List (Label π τ)} (hinv : s.Inv)
    (hrun : run s labels = some s') {p : π} (hlabels : ∀ thread, .construct thread p ∉ labels)
    : deletions labels s' p = deletions [] s p := by
  revert hlabels
  apply Machine.run_induction _ _ hrun
  . intro _
    rfl
  . intro as m label m' hm ih hstep hlabels
    rw [step_deletions (run_inv hinv hm) hstep]
    . apply ih
      intro thread hmem
      exact hlabels thread (List.mem_append_left _ hmem)
    . intro thread heq
      apply hlabels thread
      rw [heq]
      exact List.mem_append_right _ (List.mem_singleton_self _)

theorem deletions_of_construct {s s' : Factory π τ} {as bs : List (Label π τ)} (hinv : s.Inv)
    {thread : τ} {p : π} (hrun : run s (as ++ .construct thread p :: bs) = some s')
    (hlast : ∀ thread', .construct thread' p ∉ bs) : deletions bs s' p = 1 := by
  have ⟨m, m', hm, hconstruct, hrun⟩ := Machine.run_append_cons_eq_some.mp hrun
  have hminv := run_inv hinv hm
  rw [run_deletions (step_inv hminv hconstruct) hrun hlast]
  unfold deletions
  cases step_cases hminv hconstruct with
  | construct hcall hfresh heq =>
    rw [heq]
    simp

structure RaceFree (labels : List (Label π τ)) (s : Factory π τ) : Prop where
  samePointer : ∀ (thread thread' : τ) (name : String) (p p' : π), .ret thread name p ∈ labels →
    .ret thread' name p' ∈ labels → p = p'
  stored : ∀ (thread : τ) (name : String) (p : π), .ret thread name p ∈ labels →
    s.recorder.findHistogram name = some p ∧ s.heap p = some name
  neverDeleted : ∀ (thread : τ) (name : String) (p : π) (as bs : List (Label π τ)),
    labels = as ++ .ret thread name p :: bs →
    ∀ thread', .delete thread' p ∉ bs
  -- The life of a histogram goes on until the next one is made at its address.
  registered : ∀ (thread : τ) (p : π) (as bs : List (Label π τ)),
    labels = as ++ .construct thread p :: bs →
    (∀ thread', .construct thread' p ∉ bs) → (∃ name, s.recorder.findHistogram name = some p) →
    bs.countP (Label.deletes p) = 0
  deletedOnce : ∀ (thread : τ) (p : π) (as bs : List (Label π τ)),
    labels = as ++ .construct thread p :: bs →
    (∀ thread', .construct thread' p ∉ bs) → (∀ name, s.recorder.findHistogram name ≠ some p) →
    bs.countP (Label.deletes p) = 1 ∨
      (bs.countP (Label.deletes p) = 0 ∧ ∃ thread' name, s.Holds thread' name p)

theorem raceFree {labels : List (Label π τ)} {s : Factory π τ} (hrun : run create labels = some s)
    : RaceFree labels s := by
  have hinv := run_inv create_inv hrun
  have hstored : ∀ thread name p, .ret thread name p ∈ labels →
      s.recorder.findHistogram name = some p :=
    fun _ _ _ => findHistogram_of_ret_mem create_inv hrun
  constructor
  . intro thread thread' name p p' hp hp'
    have hfind := hstored thread name p hp
    rw [hstored thread' name p' hp'] at hfind
    injection hfind with hfind
    exact hfind.symm
  . intro thread name p hp
    have hfind := hstored thread name p hp
    exact ⟨hfind, hinv.registered name p hfind⟩
  . intro thread name p as bs heq
    rw [heq] at hrun
    have ⟨m, m', hm, hret, hrun⟩ := Machine.run_append_cons_eq_some.mp hrun
    have hminv := run_inv create_inv hm
    have hfind := step_findHistogram hminv hret (findHistogram_of_ret hminv hret)
    exact delete_not_mem (step_inv hminv hret) hrun hfind
  . intro thread p as bs heq hlast ⟨name, hfind⟩
    rw [heq] at hrun
    have hdeletions := deletions_of_construct create_inv hrun hlast
    unfold deletions at hdeletions
    rw [hinv.registered name p hfind] at hdeletions
    simpa using hdeletions
  . intro thread p as bs heq hlast hunregistered
    rw [heq] at hrun
    have hdeletions := deletions_of_construct create_inv hrun hlast
    unfold deletions at hdeletions
    split at hdeletions
    . exact Or.inl hdeletions
    . next hlive =>
      apply Or.inr
      refine ⟨by omega, ?_⟩
      cases hinv.covered p hlive with
      | inl h =>
        have ⟨name, hfind⟩ := h
        exact absurd hfind (hunregistered name)
      | inr h => exact h

-- Two threads look for the same name, both make a histogram and one of them is deleted.
theorem raceFree_duplicate
    : ∃ s, run (create : Factory Nat Bool) [.call true "a", .call false "a", .find true, .find false,
          .construct true 1, .construct false 2, .register false, .register true, .ret false "a" 2,
          .delete true 1, .ret true "a" 2] = some s ∧
        RaceFree [.call true "a", .call false "a", .find true, .find false, .construct true 1,
          .construct false 2, .register false, .register true, .ret false "a" 2, .delete true 1,
          .ret true "a" 2] s :=
  ⟨_, rfl, raceFree rfl⟩

end Factory
end Claire
