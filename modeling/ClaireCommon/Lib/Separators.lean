import Mathlib.Data.List.DropRight

/-!
This module contains texts with separators in which repeated separators count as one and separators at
the end do not count at all.
-/

namespace Separators

variable {α : Type*} [DecidableEq α] {sep : α} {text text' before after : List α}

def dropLeading (sep : α) (text : List α) : List α := text.dropWhile (· = sep)

def dropTrailing (sep : α) (text : List α) : List α := text.rdropWhile (· = sep)

def trim (sep : α) (text : List α) : List α := dropTrailing sep (dropLeading sep text)

def collapse (sep : α) : List α → List α
  | [] => []
  | c :: text =>
    if c = sep ∧ text.head? = some sep then collapse sep text else c :: collapse sep text

def canonical (sep : α) (text : List α) : List α := dropTrailing sep (collapse sep text)

theorem exists_leading (sep : α) (text : List α)
    : ∃ n, text = List.replicate n sep ++ dropLeading sep text := by
  refine ⟨(text.takeWhile (· = sep)).length, ?_⟩
  have hreplicate : text.takeWhile (· = sep)
      = List.replicate (text.takeWhile (· = sep)).length sep := by
    rw [List.eq_replicate_iff]
    refine ⟨rfl, ?_⟩
    intro c hc
    simpa using List.mem_takeWhile_imp hc
  rw [← hreplicate]
  exact List.takeWhile_append_dropWhile.symm

theorem exists_trailing (sep : α) (text : List α)
    : ∃ n, text = dropTrailing sep text ++ List.replicate n sep := by
  have ⟨n, hn⟩ := exists_leading sep text.reverse
  refine ⟨n, ?_⟩
  rw [← List.reverse_inj, List.reverse_append, List.reverse_replicate]
  unfold dropTrailing List.rdropWhile
  rw [List.reverse_reverse]
  exact hn

theorem head?_dropLeading_ne (sep : α) (text : List α) : (dropLeading sep text).head? ≠ some sep := by
  intro h
  have := List.head?_dropWhile_not (· = sep) text
  unfold dropLeading at h
  rw [h] at this
  simp at this

theorem getLast?_dropTrailing_ne (sep : α) (text : List α)
    : (dropTrailing sep text).getLast? ≠ some sep := by
  intro h
  unfold dropTrailing at h
  cases hempty : text.rdropWhile (· = sep) with
  | nil =>
    rw [hempty] at h
    contradiction
  | cons c rest =>
    have hne : text.rdropWhile (· = sep) ≠ [] := by
      rw [hempty]
      simp
    rw [List.getLast?_eq_getLast_of_ne_nil hne] at h
    injection h with h
    have hlast := List.rdropWhile_last_not (· = sep) text hne
    rw [h] at hlast
    simp at hlast

theorem dropLeading_eq_self (h : text.head? ≠ some sep) : dropLeading sep text = text := by
  cases text with
  | nil => rfl
  | cons c text =>
    have hne : c ≠ sep := by
      intro heq
      rw [heq] at h
      exact h rfl
    unfold dropLeading
    rw [List.dropWhile_cons_of_neg]
    simpa using hne

theorem dropTrailing_cons (c : α) (text : List α)
    : dropTrailing sep (c :: text)
        = if dropTrailing sep text = [] then (if c = sep then [] else [c])
          else c :: dropTrailing sep text := by
  unfold dropTrailing List.rdropWhile
  rw [List.reverse_cons, List.dropWhile_append]
  by_cases hempty : text.reverse.dropWhile (· = sep) = []
  . rw [hempty]
    by_cases hsep : c = sep <;> simp [hsep]
  . simp [hempty]

theorem trim_ne_nil (h : ∃ c ∈ text, c ≠ sep) : trim sep text ≠ [] := by
  have ⟨c, hc, hne⟩ := h
  have ⟨n, hn⟩ := exists_leading sep text
  intro hempty
  unfold trim dropTrailing at hempty
  rw [List.rdropWhile_eq_nil_iff] at hempty
  rw [hn] at hc
  cases List.mem_append.mp hc with
  | inl hc => exact hne (List.eq_of_mem_replicate hc)
  | inr hc => exact hne (by simpa using hempty c hc)

theorem collapse_sep_sep (before after : List α)
    : collapse sep (before ++ sep :: sep :: after) = collapse sep (before ++ sep :: after) := by
  induction before with
  | nil => rw [List.nil_append, collapse, if_pos ⟨rfl, rfl⟩, List.nil_append]
  | cons c before ih =>
    have hhead : (before ++ sep :: sep :: after).head? = (before ++ sep :: after).head? := by
      cases before <;> rfl
    rw [List.cons_append, List.cons_append, collapse, collapse, hhead, ih]

theorem collapse_replicate (n : Nat) (before after : List α)
    : collapse sep (before ++ List.replicate n sep ++ sep :: after)
        = collapse sep (before ++ sep :: after) := by
  induction n generalizing before with
  | zero => rw [List.replicate_zero, List.append_nil]
  | succ n ih =>
    have hsplit : before ++ List.replicate (n + 1) sep ++ sep :: after
        = (before ++ [sep]) ++ List.replicate n sep ++ sep :: after := by
      simp [List.replicate_succ]
    rw [hsplit, ih, List.append_assoc, List.singleton_append, collapse_sep_sep]

theorem collapse_dropTrailing (before text after : List α)
    : collapse sep (before ++ dropTrailing sep text ++ sep :: after)
        = collapse sep (before ++ text ++ sep :: after) := by
  have ⟨n, hn⟩ := exists_trailing sep text
  have hsplit : before ++ text = (before ++ dropTrailing sep text) ++ List.replicate n sep := by
    rw [List.append_assoc, ← hn]
  rw [hsplit, collapse_replicate]

theorem collapse_dropLeading (before text after : List α)
    : collapse sep (before ++ sep :: (dropLeading sep text ++ after))
        = collapse sep (before ++ sep :: (text ++ after)) := by
  have ⟨n, hn⟩ := exists_leading sep text
  have hsplit : before ++ sep :: (text ++ after)
      = before ++ List.replicate n sep ++ sep :: (dropLeading sep text ++ after) := by
    conv_lhs => rw [hn]
    rw [List.append_assoc, ← List.cons_append, ← List.replicate_succ, List.replicate_succ']
    simp
  rw [hsplit, collapse_replicate]

theorem canonical_concat (text : List α) : canonical sep (text ++ [sep]) = canonical sep text := by
  unfold canonical
  induction text with
  | nil => simp [collapse, dropTrailing]
  | cons c text ih =>
    cases text with
    | nil =>
      by_cases hsep : c = sep
      . simp [collapse, hsep]
      . have hboth : collapse sep ([c] ++ [sep]) = [c] ++ [sep] := by simp [collapse, hsep]
        have hone : collapse sep [c] = [c] := by simp [collapse]
        rw [hboth, hone]
        apply List.rdropWhile_concat_pos
        simp
    | cons c' text =>
      have hhead : (c' :: text ++ [sep]).head? = (c' :: text).head? := rfl
      rw [List.cons_append, collapse, collapse.eq_def sep (c :: c' :: text)]
      dsimp only
      rw [hhead]
      split
      . exact ih
      . rw [dropTrailing_cons, dropTrailing_cons, ih]

theorem canonical_dropTrailing (before text : List α)
    : canonical sep (before ++ dropTrailing sep text) = canonical sep (before ++ text) := by
  have hreplicate : ∀ n (text : List α),
      canonical sep (text ++ List.replicate n sep) = canonical sep text := by
    intro n
    induction n with
    | zero =>
      intro text
      rw [List.replicate_zero, List.append_nil]
    | succ n ih =>
      intro text
      rw [List.replicate_succ', ← List.append_assoc, canonical_concat, ih]
  have ⟨n, hn⟩ := exists_trailing sep text
  conv_rhs => rw [hn]
  rw [← List.append_assoc, hreplicate]

end Separators
