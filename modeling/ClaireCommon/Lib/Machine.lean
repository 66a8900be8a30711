import Mathlib.Data.List.Induction

/-!
This module contains the theory of machines that are given by a partial step function: their runs
over a list of labels, the induction and invariant rules for runs, and the rule that carries a run
of one machine over to another one whose runs it simulates.
-/

namespace Machine

variable {σ α β : Type*}

def run (step : σ → α → Option σ) (s : σ) (as : List α) : Option σ :=
  as.foldlM step s

variable {step : σ → α → Option σ}

@[simp]
theorem run_nil (s : σ) : run step s [] = some s := rfl

@[simp]
theorem run_cons (s : σ) (a : α) (as : List α)
    : run step s (a :: as) = (step s a).bind (run step · as) := rfl

theorem run_append (s : σ) (as bs : List α)
    : run step s (as ++ bs) = (run step s as).bind (run step · bs) := by
  simp only [run, List.foldlM_append]
  rfl

theorem run_append_eq_some {s s' : σ} {as bs : List α}
    : run step s (as ++ bs) = some s' ↔ ∃ m, run step s as = some m ∧ run step m bs = some s' := by
  rw [run_append, Option.bind_eq_some_iff]

theorem run_cons_eq_some {s s' : σ} {a : α} {as : List α}
    : run step s (a :: as) = some s' ↔ ∃ m, step s a = some m ∧ run step m as = some s' := by
  rw [run_cons, Option.bind_eq_some_iff]

theorem run_concat_eq_some {s s' : σ} {as : List α} {a : α}
    : run step s (as ++ [a]) = some s' ↔ ∃ m, run step s as = some m ∧ step m a = some s' := by
  rw [run_append_eq_some]
  simp [run_cons]

theorem run_append_cons_eq_some {s s' : σ} {as bs : List α} {a : α}
    : run step s (as ++ a :: bs) = some s'
        ↔
      ∃ m m', run step s as = some m ∧ step m a = some m' ∧ run step m' bs = some s' := by
  simp only [run_append_eq_some, run_cons_eq_some, exists_and_left]

theorem run_induction {s₀ : σ} {P : List α → σ → Prop} (hnil : P [] s₀)
    (hstep : ∀ (as : List α) (s : σ) (a : α) (s' : σ),
      run step s₀ as = some s → P as s → step s a = some s' → P (as ++ [a]) s')
    : ∀ {as : List α} {s : σ}, run step s₀ as = some s → P as s := by
  intro as
  induction as using List.reverseRecOn with
  | nil =>
    intro s h
    simp only [run_nil, Option.some.injEq] at h
    exact h ▸ hnil
  | append_singleton as a ih =>
    intro s h
    rw [run_concat_eq_some] at h
    rcases h with ⟨m, hm, ha⟩
    exact hstep as m a s hm (ih hm) ha

theorem run_invariant_of {P : σ → Prop} {L : α → Prop}
    (hstep : ∀ (s : σ) (a : α) (s' : σ), L a → P s → step s a = some s' → P s')
    {s s' : σ} {as : List α} (hlabels : ∀ a ∈ as, L a) (hs : P s) (hrun : run step s as = some s')
    : P s' := by
  induction as generalizing s with
  | nil =>
    simp only [run_nil, Option.some.injEq] at hrun
    exact hrun ▸ hs
  | cons a as ih =>
    rw [run_cons_eq_some] at hrun
    rcases hrun with ⟨m, hm, hrun⟩
    apply ih
    . intro b hb
      exact hlabels b (List.mem_cons_of_mem _ hb)
    . exact hstep s a m (hlabels a List.mem_cons_self) hs hm
    . exact hrun

theorem run_invariant {P : σ → Prop}
    (hstep : ∀ (s : σ) (a : α) (s' : σ), P s → step s a = some s' → P s')
    {s s' : σ} {as : List α} (hs : P s) (hrun : run step s as = some s')
    : P s' := by
  apply run_invariant_of (L := fun _ => True) _ _ hs hrun
  . intro s a s' _
    exact hstep s a s'
  . simp

theorem run_invariant_of_mem {P : σ → Prop} {s s' : σ} {as : List α} {a : α}
    (hstep : ∀ (s : σ) (a : α) (s' : σ), P s → step s a = some s' → P s')
    (hintro : ∀ (as : List α) (m m' : σ), run step s as = some m → step m a = some m' → P m')
    (hmem : a ∈ as) (hrun : run step s as = some s')
    : P s' := by
  have ⟨as₁, as₂, heq⟩ := List.append_of_mem hmem
  rw [heq, run_append_eq_some] at hrun
  have ⟨m, hm, hrun⟩ := hrun
  rw [run_cons_eq_some] at hrun
  have ⟨m', ha, hrun⟩ := hrun
  apply run_invariant hstep _ hrun
  apply hintro as₁ m m' hm ha

theorem filterMap_concat (f : α → Option β) (as : List α) (a : α)
    : (as ++ [a]).filterMap f = as.filterMap f ++ (f a).toList := by
  rw [List.filterMap_append]
  cases h : f a <;> simp [h]

theorem run_simulates {σ' : Type*} {step' : σ' → β → Option σ'} (f : α → Option β) (g : σ → σ')
    (hstep : ∀ (s : σ) (a : α) (s' : σ), step s a = some s' → run step' (g s) (f a).toList = some (g s'))
    {s s' : σ} {as : List α} (hrun : run step s as = some s')
    : run step' (g s) (as.filterMap f) = some (g s') := by
  apply run_induction (P := fun as s' => run step' (g s) (as.filterMap f) = some (g s')) rfl _ hrun
  intro as m a m' _ hm ha
  rw [filterMap_concat, run_append_eq_some]
  exact ⟨g m, hm, hstep m a m' ha⟩

end Machine
