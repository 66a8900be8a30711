import Mathlib.Data.List.Basic

/-!
This module contains computations that can stop early and that leave a log of what they did. The log
survives a stop. The results alone form the exception monad, `result_bind` carries reasoning about
them over to it.
-/

universe u v

structure Traced (ε ω : Type u) (α : Type v) where
  result : Except ε α
  log : List ω

namespace Traced

variable {ε ω : Type u} {α β σ : Type v}

def stop (e : ε) : Traced ε ω α := ⟨.error e, []⟩

def emit (event : ω) : Traced ε ω PUnit := ⟨.ok ⟨⟩, [event]⟩

def ofExcept (x : Except ε α) : Traced ε ω α := ⟨x, []⟩

instance : Monad (Traced ε ω) where
  pure a := ⟨.ok a, []⟩
  bind x f :=
    match x.result with
    | .ok a => ⟨(f a).result, x.log ++ (f a).log⟩
    | .error e => ⟨.error e, x.log⟩

@[simp]
theorem result_pure (a : α) : (pure a : Traced ε ω α).result = .ok a := rfl

@[simp]
theorem log_pure (a : α) : (pure a : Traced ε ω α).log = [] := rfl

@[simp]
theorem result_stop (e : ε) : (stop e : Traced ε ω α).result = .error e := rfl

@[simp]
theorem log_stop (e : ε) : (stop e : Traced ε ω α).log = [] := rfl

@[simp]
theorem result_emit (event : ω) : (emit event : Traced ε ω PUnit).result = .ok ⟨⟩ := rfl

@[simp]
theorem log_emit (event : ω) : (emit event : Traced ε ω PUnit).log = [event] := rfl

@[simp]
theorem pure_bind (a : α) (f : α → Traced ε ω β) : pure a >>= f = f a := rfl

@[simp]
theorem stop_bind (e : ε) (f : α → Traced ε ω β) : stop e >>= f = stop e := rfl

theorem bind_mk (a : α) (log : List ω) (f : α → Traced ε ω β)
    : (⟨.ok a, log⟩ : Traced ε ω α) >>= f = ⟨(f a).result, log ++ (f a).log⟩ := rfl

theorem bind_of_ok {x : Traced ε ω α} {a : α} (h : x.result = .ok a) (f : α → Traced ε ω β)
    : (x >>= f).result = (f a).result ∧ (x >>= f).log = x.log ++ (f a).log := by
  dsimp only [bind]
  rw [h]
  exact ⟨rfl, rfl⟩

theorem bind_of_error {x : Traced ε ω α} {e : ε} (h : x.result = .error e) (f : α → Traced ε ω β)
    : (x >>= f).result = .error e ∧ (x >>= f).log = x.log := by
  dsimp only [bind]
  rw [h]
  exact ⟨rfl, rfl⟩

theorem result_bind (x : Traced ε ω α) (f : α → Traced ε ω β)
    : (x >>= f).result = x.result >>= fun a => (f a).result := by
  cases h : x.result with
  | ok a => exact (bind_of_ok h f).1
  | error e => exact (bind_of_error h f).1

theorem result_bind_of_ok {x : Traced ε ω α} {a : α} (h : x.result = .ok a) (f : α → Traced ε ω β)
    : (x >>= f).result = (f a).result :=
  (bind_of_ok h f).1

theorem exists_ok_of_toBool {x : Except ε α} (h : x.toBool = true) : ∃ a, x = .ok a := by
  cases x with
  | ok a => exact ⟨a, rfl⟩
  | error e => contradiction

theorem bind_eq_ok {x : Traced ε ω α} {f : α → Traced ε ω β} {b : β}
    : (x >>= f).result = .ok b ↔ ∃ a, x.result = .ok a ∧ (f a).result = .ok b := by
  cases h : x.result with
  | ok a =>
    rw [(bind_of_ok h f).1]
    simp
  | error e =>
    rw [(bind_of_error h f).1]
    simp

theorem bind_eq_error {x : Traced ε ω α} {f : α → Traced ε ω β} {e : ε}
    : (x >>= f).result = .error e
        ↔ x.result = .error e ∨ ∃ a, x.result = .ok a ∧ (f a).result = .error e := by
  cases h : x.result with
  | ok a =>
    rw [(bind_of_ok h f).1]
    simp
  | error e' =>
    rw [(bind_of_error h f).1]
    simp

theorem bind_bind {γ : Type v} (x : Traced ε ω α) (f : α → Traced ε ω β) (g : β → Traced ε ω γ)
    : x >>= f >>= g = x >>= fun a => f a >>= g := by
  cases x with
  | mk result log =>
    cases result with
    | error e => rfl
    | ok a =>
      rw [bind_mk, bind_mk]
      dsimp only [bind]
      cases (f a).result <;> simp

theorem mem_log_bind {x : Traced ε ω α} {f : α → Traced ε ω β} {event : ω} (h : event ∈ x.log)
    : event ∈ (x >>= f).log := by
  cases hx : x.result with
  | ok a =>
    rw [(bind_of_ok hx f).2]
    exact List.mem_append_left _ h
  | error e =>
    rw [(bind_of_error hx f).2]
    exact h

theorem mem_log_bind_iff {x : Traced ε ω α} {f : α → Traced ε ω β} {event : ω}
    : event ∈ (x >>= f).log ↔ event ∈ x.log ∨ ∃ a, x.result = .ok a ∧ event ∈ (f a).log := by
  cases hx : x.result with
  | ok a =>
    rw [(bind_of_ok hx f).2, List.mem_append]
    simp
  | error e =>
    rw [(bind_of_error hx f).2]
    simp

theorem foldlM_of_pure {l : List σ} {f : β → σ → Traced ε ω β} {g : β → σ → β}
    (h : ∀ b, ∀ a ∈ l, f b a = pure (g b a)) (b : β) : l.foldlM f b = pure (l.foldl g b) := by
  induction l generalizing b with
  | nil => rfl
  | cons a l ih =>
    rw [List.foldlM_cons, h b a List.mem_cons_self, pure_bind, List.foldl_cons]
    apply ih
    intro b a ha
    apply h b a (List.mem_cons_of_mem _ ha)

-- The body goes on with a new state or leaves the loop. `stuck` ends a loop that uses up its fuel.
def loop (stuck : ε) (body : σ → Traced ε ω (σ ⊕ α)) : Nat → σ → Traced ε ω α
  | 0, _ => stop stuck
  | fuel + 1, s => do
    match ← body s with
    | .inl s' => loop stuck body fuel s'
    | .inr a => return a

variable {stuck : ε} {body : σ → Traced ε ω (σ ⊕ α)}

theorem loop_continue {s s' : σ} (fuel : Nat) (h : (body s).result = .ok (.inl s'))
    : (loop stuck body (fuel + 1) s).result = (loop stuck body fuel s').result := by
  rw [loop.eq_2, result_bind_of_ok h]

theorem loop_leave {s : σ} {a : α} (fuel : Nat) (h : (body s).result = .ok (.inr a))
    : (loop stuck body (fuel + 1) s).result = .ok a := by
  unfold loop
  rw [result_bind_of_ok h]
  rfl

theorem loop_last {s : σ} {x : Traced ε ω α} (fuel : Nat)
    (h : (body s).result = (x >>= fun a => pure (.inr a)).result)
    : (loop stuck body (fuel + 1) s).result = x.result := by
  unfold loop
  rw [result_bind, h, result_bind]
  cases x.result <;> rfl

theorem loop_eq_ok {s : σ} {fuel : Nat} {a : α} (h : (loop stuck body (fuel + 1) s).result = .ok a)
    : (body s).result = .ok (.inr a)
        ∨ ∃ s', (body s).result = .ok (.inl s') ∧ (loop stuck body fuel s').result = .ok a := by
  unfold loop at h
  rw [bind_eq_ok] at h
  have ⟨r, hr, h⟩ := h
  cases r with
  | inl s' => exact Or.inr ⟨s', hr, h⟩
  | inr a' =>
    injection h with h
    rw [h] at hr
    exact Or.inl hr

-- `s` becomes `s'` in `n` rounds.
inductive Rounds (body : σ → Traced ε ω (σ ⊕ α)) : Nat → σ → σ → Prop
  | refl (s : σ) : Rounds body 0 s s
  | head {n : Nat} {s s' s'' : σ} (first : (body s).result = .ok (.inl s'))
      (rest : Rounds body n s' s'') : Rounds body (n + 1) s s''

theorem Rounds.loop {n : Nat} {s s' : σ} (h : Rounds body n s s') (fuel : Nat)
    : (loop stuck body (n + fuel) s).result = (loop stuck body fuel s').result := by
  induction h with
  | refl s => rw [Nat.zero_add]
  | @head n s s' s'' first rest ih =>
    rw [Nat.add_right_comm, loop_continue _ first]
    exact ih

theorem Rounds.trans {n m : Nat} {s s' s'' : σ} (h : Rounds body n s s') (h' : Rounds body m s' s'')
    : Rounds body (n + m) s s'' := by
  induction h with
  | refl s =>
    rw [Nat.zero_add]
    exact h'
  | head first rest ih =>
    rw [Nat.add_right_comm]
    exact Rounds.head first (ih h')

theorem Rounds.loop_leave {n fuel : Nat} {s s' : σ} {a : α} (h : Rounds body n s s')
    (hleave : (body s').result = .ok (.inr a)) (hfuel : n < fuel)
    : (Traced.loop stuck body fuel s).result = .ok a := by
  have hsplit : fuel = n + ((fuel - n - 1) + 1) := by omega
  rw [hsplit, h.loop, Traced.loop_leave _ hleave]

theorem Rounds.loop_stop {n fuel : Nat} {s s' : σ} {e : ε} (h : Rounds body n s s')
    (hstop : (body s').result = .error e) (hfuel : n < fuel)
    : (Traced.loop stuck body fuel s).result = .error e := by
  have hsplit : fuel = n + ((fuel - n - 1) + 1) := by omega
  rw [hsplit, h.loop, Traced.loop.eq_2, bind_eq_error]
  exact Or.inl hstop

theorem rounds_of_loop_ok {fuel : Nat} {s : σ} {a : α} (h : (loop stuck body fuel s).result = .ok a)
    : ∃ n < fuel, ∃ s', Rounds body n s s' ∧ (body s').result = .ok (.inr a) := by
  induction fuel generalizing s with
  | zero => contradiction
  | succ fuel ih =>
    cases loop_eq_ok h with
    | inl hlast => exact ⟨0, Nat.zero_lt_succ fuel, s, .refl s, hlast⟩
    | inr hmore =>
      have ⟨s', hfirst, hrest⟩ := hmore
      have ⟨n, hn, s'', hrounds, hlast⟩ := ih hrest
      exact ⟨n + 1, Nat.succ_lt_succ hn, s'', .head hfirst hrounds, hlast⟩

theorem loop_leaves {P : α → Prop} (hleave : ∀ s a, (body s).result = .ok (.inr a) → P a) {fuel : Nat}
    {s : σ} {a : α} (h : (loop stuck body fuel s).result = .ok a) : P a := by
  have ⟨_, _, s', _, hlast⟩ := rounds_of_loop_ok h
  exact hleave s' a hlast

theorem rounds_of_loop_error {fuel : Nat} {s : σ} {e : ε} (hstuck : e ≠ stuck)
    (h : (loop stuck body fuel s).result = .error e)
    : ∃ n < fuel, ∃ s', Rounds body n s s' ∧ (body s').result = .error e := by
  induction fuel generalizing s with
  | zero =>
    injection h with h
    exact absurd h.symm hstuck
  | succ fuel ih =>
    rw [loop.eq_2, bind_eq_error] at h
    cases h with
    | inl hfirst => exact ⟨0, Nat.zero_lt_succ fuel, s, .refl s, hfirst⟩
    | inr hmore =>
      have ⟨r, hfirst, hrest⟩ := hmore
      cases r with
      | inl s' =>
        have ⟨n, hn, s'', hrounds, hlast⟩ := ih hrest
        exact ⟨n + 1, Nat.succ_lt_succ hn, s'', .head hfirst hrounds, hlast⟩
      | inr a => contradiction

theorem Rounds.add_le (measure : σ → Nat) {n : Nat} {s s' : σ} (h : Rounds body n s s')
    (hdecreases : ∀ s s', (body s).result = .ok (.inl s') → measure s' < measure s)
    : n + measure s' ≤ measure s := by
  induction h with
  | refl s => exact Nat.le_of_eq (Nat.zero_add _)
  | head first rest ih =>
    have hfirst := hdecreases _ _ first
    omega

end Traced
