import ClaireCommon.Strings.Lemmas.Search

/-!
This module contains when the searches for a character agree with those for the piece that holds it:
`find` always does, `rfind` counts down in an `int` and misses what lies above it.
-/

namespace Claire

open Traced Occurrence

variable {env : Env} {ts : List UInt8} {c : UInt8}

theorem Env.find_eq {p : Ptr} (h : env.Holds p ts)
    : (env.find p (p.add ts.length) c).result = .ok (p.add (ts.idxOf c)) := by
  unfold find
  rw [result_bind_of_ok (bytesOf_eq h), result_pure]

namespace StringPiece

variable {t s : StringPiece} {pos i n : Nat}

def indexOr (ts : List UInt8) (i : Nat) : Nat := if i < ts.length then i else npos

theorem add_idxOf_le (hpos : pos ≤ ts.length) : pos + (ts.drop pos).idxOf c ≤ ts.length := by
  have hle : (ts.drop pos).idxOf c ≤ (ts.drop pos).length := List.idxOf_le_length
  rw [List.length_drop] at hle
  omega

theorem Covers.find_eq (ht : t.Covers env ts) (c : UInt8) (hpos : pos ≤ ts.length)
    : (env.find (t.data.add pos) t.stop c).result
        = .ok (t.data.add (pos + (ts.drop pos).idxOf c)) := by
  rw [ht.stop_eq_add hpos, Env.find_eq (ht.holds.drop hpos), Ptr.add_add]

theorem findChar_eq (ht : t.Covers env ts) (c : UInt8) (pos : Nat)
    : (t.findChar env c pos).result = .ok (indexOr ts (pos + (ts.drop pos).idxOf c)) := by
  have hlt := ht.holds.length_lt
  unfold findChar indexOr
  rw [ht.size]
  split
  next hbehind =>
    rw [if_neg (by omega)]
    rfl
  next hinside =>
    have hle := @add_idxOf_le ts c pos (by omega)
    rw [result_bind_of_ok (ht.find_eq c (by omega)), result_pure, ht.stop_eq]
    simp only [ne_eq, Ptr.add_inj]
    by_cases hfound : pos + (ts.drop pos).idxOf c < ts.length
    . rw [if_pos hfound, if_pos (by omega), distance_add _ (by omega)]
    . rw [if_neg hfound, if_neg (by omega)]

theorem find_singleton_eq (ht : t.Covers env ts) (hs : s.Covers env [c]) (pos : Nat)
    : (t.find env s pos).result = .ok (indexOr ts (pos + (ts.drop pos).idxOf c)) := by
  have hlt := ht.holds.length_lt
  unfold find indexOr
  rw [ht.size]
  split
  next hbehind =>
    rw [if_neg (by omega)]
    rfl
  next hinside =>
    have hle := @add_idxOf_le ts c pos (by omega)
    have hsize : s.size = 1 := hs.size
    rw [result_bind_of_ok (ht.search_eq hs (by omega)), search_singleton, result_pure,
      distance_add _ (by omega), hsize]
    by_cases hfound : pos + (ts.drop pos).idxOf c < ts.length
    . rw [if_pos hfound, if_pos]
      unfold sizeT
      omega
    . rw [if_neg hfound]
      split
      next hwraps =>
        -- The sum is zero, the length is `npos` itself.
        unfold sizeT at hwraps
        unfold npos
        congr 1
        omega
      next => rfl

theorem rfindCharFrom_spec (ht : t.Covers env ts) (hn : n ≤ ts.length)
    : ∃ r, (t.rfindCharFrom env c n).result = .ok r
        ∧ (IsGreatest {i | i < n ∧ Occurs ts [c] i} r
          ∨ r = npos ∧ ∀ i, i < n → ¬Occurs ts [c] i) := by
  induction n with
  | zero =>
    refine ⟨npos, rfl, Or.inr ⟨rfl, ?_⟩⟩
    intro i hi
    contradiction
  | succ n ih =>
    have hpeek := Env.peek_eq_ok.mpr (ht.holds.getElem? (List.getElem?_eq_getElem hn))
    unfold rfindCharFrom
    rw [result_bind_of_ok hpeek]
    split
    next heq =>
      refine ⟨n, rfl, Or.inl ⟨⟨Nat.lt_succ_self n, ?_⟩, ?_⟩⟩
      . rw [occurs_singleton, ← heq]
        exact List.getElem?_eq_getElem hn
      . intro i hi
        exact Nat.le_of_lt_succ hi.1
    next hne =>
      have hnot : ¬Occurs ts [c] n := by
        intro hoccurs
        rw [occurs_singleton, List.getElem?_eq_getElem hn, Option.some.injEq] at hoccurs
        exact hne hoccurs
      have hlt : ∀ {i}, i < n + 1 → Occurs ts [c] i → i < n := by
        intro i hi hoccurs
        apply Nat.lt_of_le_of_ne (Nat.le_of_lt_succ hi)
        intro heq
        exact hnot (heq ▸ hoccurs)
      have ⟨r, hr, hspec⟩ := ih (by omega)
      refine ⟨r, hr, ?_⟩
      cases hspec with
      | inl hgreatest =>
        refine Or.inl ⟨⟨Nat.lt_succ_of_lt hgreatest.1.1, hgreatest.1.2⟩, ?_⟩
        intro i ⟨hi, hoccurs⟩
        exact hgreatest.2 ⟨hlt hi hoccurs, hoccurs⟩
      | inr hnone =>
        refine Or.inr ⟨hnone.1, ?_⟩
        intro i hi hoccurs
        exact hnone.2 i (hlt hi hoccurs) hoccurs

def startIndex (ts : List UInt8) (pos : Nat) : Int := int32 (min pos (ts.length - 1) : Nat)

theorem startIndex_le (ts : List UInt8) (pos : Nat)
    : startIndex ts pos ≤ (min pos (ts.length - 1) : Nat) :=
  int32_natCast_le _

theorem rfindChar_eq (ht : t.Covers env ts)
    : t.rfindChar env c pos
        = if ts.length = 0 then
            return npos
          else
            t.rfindCharFrom env c (startIndex ts pos + 1).toNat := by
  unfold rfindChar startIndex
  rw [ht.size]

theorem rfindChar_spec (ht : t.Covers env ts) (c : UInt8) (pos : Nat)
    : ∃ r, (t.rfindChar env c pos).result = .ok r
        ∧ (IsGreatest {i : Nat | i ≤ startIndex ts pos ∧ Occurs ts [c] i} r
          ∨ r = npos ∧ ∀ i : Nat, i ≤ startIndex ts pos → ¬Occurs ts [c] i) := by
  have hle := startIndex_le ts pos
  rw [rfindChar_eq ht]
  split
  next hempty =>
    rw [List.length_eq_zero_iff] at hempty
    subst hempty
    exact ⟨npos, rfl, Or.inr ⟨rfl, fun i _ => occurs_nil (by simp)⟩⟩
  next hne =>
    have hn : (startIndex ts pos + 1).toNat ≤ ts.length := by omega
    have hindex : ∀ i : Nat, i < (startIndex ts pos + 1).toNat ↔ i ≤ startIndex ts pos := by
      intro i
      omega
    have hspec := rfindCharFrom_spec (c := c) ht hn
    simp only [hindex] at hspec
    exact hspec

-- An index above the range of `int` becomes negative, the loop is not entered.
theorem startIndex_neg (hlo : 2 ^ 31 ≤ min pos (ts.length - 1))
    (hhi : min pos (ts.length - 1) < 2 ^ 32)
    : startIndex ts pos < 0 := by
  unfold startIndex int32
  rw [Int.bmod_def]
  omega

theorem rfindChar_eq_npos (ht : t.Covers env ts) (hneg : startIndex ts pos < 0)
    : (t.rfindChar env c pos).result = .ok npos := by
  have ⟨r, hr, hspec⟩ := rfindChar_spec ht c pos
  cases hspec with
  | inl hgreatest =>
    have hstart := hgreatest.1.1
    omega
  | inr hnone => rw [hr, hnone.1]

structure CharSearchAgrees (env : Env) (t s : StringPiece) (c : UInt8) (pos : Nat) : Prop where
  find : ∃ r, (t.findChar env c pos).result = .ok r ∧ (t.find env s pos).result = .ok r
  rfind : ∃ r, (t.rfindChar env c pos).result = .ok r ∧ (t.rfind env s pos).result = .ok r

-- The `int` does not lie below an index where `rfind` is to find the character.
def FitsInt (ts : List UInt8) (c : UInt8) (pos : Nat) : Prop :=
  ∀ i ≤ pos, ts[i]? = some c → i ≤ startIndex ts pos

theorem fitsInt_of_lt (h : min pos (ts.length - 1) < 2 ^ 31) : FitsInt ts c pos := by
  intro i hi hc
  have ⟨hlt, _⟩ := List.getElem?_eq_some_iff.mp hc
  unfold startIndex
  rw [int32_of_range (by omega) (by omega)]
  omega

theorem le_of_le_startIndex (h : i ≤ startIndex ts pos) : i ≤ pos := by
  have hle := startIndex_le ts pos
  omega

theorem FitsInt.occurs_iff (h : FitsInt ts c pos) (i : Nat)
    : i ≤ startIndex ts pos ∧ Occurs ts [c] i ↔ i ≤ pos ∧ Occurs ts [c] i := by
  constructor
  . intro ⟨hi, hoccurs⟩
    exact ⟨le_of_le_startIndex hi, hoccurs⟩
  . intro ⟨hi, hoccurs⟩
    exact ⟨h i hi (occurs_singleton.mp hoccurs), hoccurs⟩

theorem rfind_agrees (ht : t.Covers env ts) (hs : s.Covers env [c]) (hfits : FitsInt ts c pos)
    : ∃ r, (t.rfindChar env c pos).result = .ok r ∧ (t.rfind env s pos).result = .ok r := by
  have ⟨r, hr, hspec⟩ := rfindChar_spec ht c pos
  have ⟨r', hr', hspec'⟩ := @rfind_spec env ts [c] t s pos ht hs
  refine ⟨r, hr, ?_⟩
  rw [hr']
  simp only [hfits.occurs_iff] at hspec
  cases hspec with
  | inl hgreatest =>
    cases hspec' with
    | inl hgreatest' => rw [hgreatest.unique hgreatest']
    | inr hnone => exact absurd hgreatest.1.2 (hnone.2 r hgreatest.1.1)
  | inr hnone =>
    cases hspec' with
    | inl hgreatest =>
      have hboth := (hfits.occurs_iff r').mpr hgreatest.1
      exact absurd hboth.2 (hnone.2 r' hboth.1)
    | inr hnone' => rw [hnone.1, hnone'.1]

theorem fitsInt_of_agrees (ht : t.Covers env ts) (hs : s.Covers env [c])
    (h : ∃ r, (t.rfindChar env c pos).result = .ok r ∧ (t.rfind env s pos).result = .ok r)
    : FitsInt ts c pos := by
  have hlt := ht.holds.length_lt
  have ⟨r, hr, hspec⟩ := rfindChar_spec ht c pos
  have ⟨r', hr', hspec'⟩ := @rfind_spec env ts [c] t s pos ht hs
  have ⟨r'', heq, heq'⟩ := h
  rw [hr, Except.ok.injEq] at heq
  rw [hr', Except.ok.injEq, ← heq] at heq'
  intro i hi hc
  rw [← occurs_singleton] at hc
  cases hspec' with
  | inr hnone => exact absurd hc (hnone.2 i hi)
  | inl hgreatest =>
    have hmax := hgreatest.2 ⟨hi, hc⟩
    have hfits := hgreatest.1.2.fits
    rw [heq'] at hmax hfits
    rw [List.length_singleton] at hfits
    cases hspec with
    | inl hgreatest' =>
      have hstart := hgreatest'.1.1
      omega
    | inr hnone =>
      rw [hnone.1] at hfits
      unfold npos at hfits
      omega

theorem charSearchAgrees_iff (ht : t.Covers env ts) (hs : s.Covers env [c]) (pos : Nat)
    : CharSearchAgrees env t s c pos ↔ FitsInt ts c pos := by
  constructor
  . intro h
    exact fitsInt_of_agrees ht hs h.rfind
  . intro h
    exact ⟨⟨_, findChar_eq ht c pos, find_singleton_eq ht hs pos⟩, rfind_agrees ht hs h⟩

theorem charSearchAgrees_aba
    : have env := Env.ofSection .literal [0x61, 0x62, 0x61] (by decide)
      CharSearchAgrees env ⟨⟨.literal, 0⟩, 3⟩ ⟨⟨.literal, 1⟩, 1⟩ 0x62 npos := by
  intro env
  have ht : StringPiece.Covers env ⟨⟨.literal, 0⟩, 3⟩ [0x61, 0x62, 0x61] := ⟨by decide, rfl⟩
  have hs : StringPiece.Covers env ⟨⟨.literal, 1⟩, 1⟩ [0x62] := ⟨by decide, rfl⟩
  exact (charSearchAgrees_iff ht hs npos).mpr (fitsInt_of_lt (by decide))

theorem covers_replicate (c : UInt8) {m : Nat} (hm : m ≤ n)
    (h : (List.replicate n c).length < 2 ^ 64)
    : StringPiece.Covers (Env.ofSection .literal (List.replicate n c) h) ⟨⟨.literal, 0⟩, m⟩
        (List.replicate m c) where
  holds := by
    have hsplit : List.replicate n c = [] ++ List.replicate m c ++ List.replicate (n - m) c := by
      rw [List.nil_append, List.replicate_append_replicate, Nat.add_sub_cancel' hm]
    have hmapped : (Env.ofSection .literal (List.replicate n c) h).mapped .literal
        = List.replicate n c := by
      simp [Env.ofSection, Env.mapped]
    apply @Env.holds_of_mapped _ _ .literal [] (List.replicate (n - m) c)
    rw [hmapped]
    exact hsplit
  size := by
    rw [List.length_replicate]

theorem rfind_replicate (ht : t.Covers env (List.replicate (n + 1) c)) (hs : s.Covers env [c])
    : (t.rfind env s npos).result = .ok n := by
  have hlt := ht.holds.length_lt
  rw [List.length_replicate] at hlt
  have hpos : n ≤ npos := by
    unfold npos
    omega
  have hoccurs : Occurs (List.replicate (n + 1) c) [c] n := by
    rw [occurs_singleton, List.getElem?_replicate, if_pos (Nat.lt_succ_self n)]
  have ⟨r, hr, hspec⟩ := @rfind_spec env _ _ t s npos ht hs
  cases hspec with
  | inl hgreatest =>
    have hle := hgreatest.2 ⟨hpos, hoccurs⟩
    have hfits := hgreatest.1.2.fits
    rw [List.length_replicate, List.length_singleton] at hfits
    rw [hr, Nat.le_antisymm (Nat.le_of_succ_le_succ hfits) hle]
  | inr hnone => exact absurd hoccurs (hnone.2 n hpos)

-- The last of `2 ^ 31 + 1` equal characters
theorem not_charSearchAgrees
    : have env := Env.ofSection .literal (List.replicate (2 ^ 31 + 1) 0x61)
        (by rw [List.length_replicate]; decide)
      have t : StringPiece := ⟨⟨.literal, 0⟩, 2 ^ 31 + 1⟩
      have s : StringPiece := ⟨⟨.literal, 0⟩, 1⟩
      (t.rfindChar env 0x61 npos).result = .ok npos
        ∧ (t.rfind env s npos).result = .ok (2 ^ 31)
        ∧ ¬CharSearchAgrees env t s 0x61 npos := by
  intro env t s
  have ht : t.Covers env (List.replicate (2 ^ 31 + 1) 0x61) := covers_replicate 0x61 (Nat.le_refl _) _
  have hs : s.Covers env [0x61] := @covers_replicate _ 0x61 1 (by decide) _
  have hlast : min npos ((List.replicate (2 ^ 31 + 1) (0x61 : UInt8)).length - 1) = 2 ^ 31 := by
    rw [List.length_replicate]
    decide
  have hneg := @startIndex_neg (List.replicate (2 ^ 31 + 1) 0x61) npos (by omega) (by omega)
  have hmissed := @rfindChar_eq_npos env _ 0x61 t npos ht hneg
  have hfound := rfind_replicate ht hs
  refine ⟨hmissed, hfound, ?_⟩
  intro h
  have ⟨r, hr, hr'⟩ := h.rfind
  rw [hmissed, Except.ok.injEq] at hr
  rw [hfound, Except.ok.injEq, ← hr] at hr'
  exact absurd hr' (by decide)

end StringPiece
end Claire
