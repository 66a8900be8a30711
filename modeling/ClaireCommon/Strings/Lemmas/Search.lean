import ClaireCommon.Strings.Impl.Substring
import ClaireCommon.Strings.Lemmas.Comparison

/-!
This module contains the proof that `find` and `rfind` return the first and the last occurrence of a
piece in a piece.
-/

namespace Claire

open Traced Occurrence

variable {env : Env} {p q : Ptr} {ts ss : List UInt8}

namespace Env

theorem bytesOf_eq (h : env.Holds p ts) : (env.bytesOf p (p.add ts.length)).result = .ok ts := by
  unfold bytesOf
  rw [StringPiece.distance_add _ h.length_lt, peekMany_eq_ok]
  exact ⟨rfl, h⟩

theorem search_eq (ht : env.Holds p ts) (hs : env.Holds q ss)
    : (env.search p (p.add ts.length) q (q.add ss.length)).result
        = .ok (p.add (Occurrence.search ss ts)) := by
  unfold search
  rw [result_bind_of_ok (bytesOf_eq ht), result_bind_of_ok (bytesOf_eq hs), result_pure]

theorem findEnd_eq (ht : env.Holds p ts) (hs : env.Holds q ss) (hne : ss ≠ [])
    : (env.findEnd p (p.add ts.length) q (q.add ss.length)).result
        = .ok (p.add (Occurrence.findEnd ss ts)) := by
  unfold findEnd
  rw [result_bind_of_ok (bytesOf_eq ht), result_bind_of_ok (bytesOf_eq hs), if_neg hne, result_pure]

end Env

namespace StringPiece

variable {t s : StringPiece} {pos i n : Nat}

theorem substr_eq (hle : pos + n ≤ t.size) : t.substr pos n = ⟨t.data.add pos, n⟩ := by
  unfold substr
  rw [if_neg (by omega : ¬pos > t.size)]
  dsimp only
  rw [if_neg (by omega)]

theorem Covers.substr (h : t.Covers env ts) (hle : pos + n ≤ ts.length)
    : (t.substr pos n).Covers env ((ts.drop pos).take n) := by
  rw [substr_eq (by rw [h.size]; exact hle)]
  constructor
  . apply Env.Holds.take
    apply h.holds.drop
    omega
  . dsimp only
    rw [List.length_take, List.length_drop]
    omega

theorem Covers.stop_eq (h : t.Covers env ts) : t.stop = t.data.add ts.length := by
  unfold stop
  rw [h.size]

theorem Covers.stop_eq_add (h : t.Covers env ts) (hpos : pos ≤ ts.length)
    : t.stop = (t.data.add pos).add (ts.drop pos).length := by
  rw [h.stop_eq, Ptr.add_add, List.length_drop, Nat.add_sub_cancel' hpos]

theorem Covers.search_eq (ht : t.Covers env ts) (hs : s.Covers env ss) (hpos : pos ≤ ts.length)
    : (env.search (t.data.add pos) t.stop s.data s.stop).result
        = .ok (t.data.add (pos + Occurrence.search ss (ts.drop pos))) := by
  rw [ht.stop_eq_add hpos, hs.stop_eq, Env.search_eq (ht.holds.drop hpos) hs.holds, Ptr.add_add]

-- No object of C++ is larger than half of the address space.
structure Spans (env : Env) (s : StringPiece) (bytes : List UInt8) : Prop extends Covers env s bytes where
  size_lt : s.size < 2 ^ 63

theorem Spans.length_lt (h : t.Spans env ts) : ts.length < 2 ^ 63 := by
  rw [← h.size]
  exact h.size_lt

theorem Spans.ne_npos (ht : t.Spans env ts) (hoccurs : Occurs ts ss i) : i ≠ npos := by
  have hfits := hoccurs.fits
  have hlt := ht.length_lt
  unfold npos
  omega

theorem find_spec (ht : t.Spans env ts) (hs : s.Spans env ss)
    : ∃ r, (t.find env s pos).result = .ok r
        ∧ (IsLeast {i | pos ≤ i ∧ Occurs ts ss i} r ∨ r = npos ∧ ∀ i, pos ≤ i → ¬Occurs ts ss i) := by
  unfold find
  split
  next hgt =>
    refine ⟨npos, rfl, Or.inr ⟨rfl, ?_⟩⟩
    intro i hi hoccurs
    have hfits := hoccurs.fits
    rw [ht.size] at hgt
    omega
  next hle =>
    rw [ht.size, Nat.not_lt] at hle
    have htlt := ht.length_lt
    have hslt := hs.length_lt
    have hspec := @search_drop_spec _ ts ss _ _ hle
    have hxpos : pos + Occurrence.search ss (ts.drop pos) ≤ ts.length := by
      cases hspec with
      | inl hleast =>
        have hfits := hleast.1.2.fits
        omega
      | inr hnone => exact Nat.le_of_eq hnone.1
    have hsum : sizeT ((pos + Occurrence.search ss (ts.drop pos) : Nat) + (ss.length : Nat))
          ≤ (ts.length : Nat)
        ↔ pos + Occurrence.search ss (ts.drop pos) + ss.length ≤ ts.length := by
      unfold sizeT
      omega
    rw [result_bind_of_ok (ht.search_eq hs.toCovers hle), result_pure, distance_add _ (by omega),
      ht.size, hs.size]
    simp only [hsum]
    refine ⟨_, rfl, ?_⟩
    cases hspec with
    | inl hleast =>
      rw [if_pos hleast.1.2.fits]
      exact Or.inl hleast
    | inr hnone =>
      obtain ⟨hend, hpositive, hnone⟩ := hnone
      rw [hend, if_neg (by omega)]
      exact Or.inr ⟨rfl, hnone⟩

theorem occurs_nil_iff : Occurs ts ([] : List UInt8) i ↔ i ≤ ts.length := by
  constructor
  . intro h
    exact h.fits
  . intro h
    exact ⟨h, rfl⟩

-- `last` of `rfind`: where an occurrence at the greatest permitted index would end
theorem add_le_last (hfits : i + ss.length ≤ ts.length)
    : i + ss.length ≤ min (ts.length - ss.length) pos + ss.length ↔ i ≤ pos := by
  omega

theorem rfind_spec (ht : t.Covers env ts) (hs : s.Covers env ss)
    : ∃ r, (t.rfind env s pos).result = .ok r
        ∧ (IsGreatest {i | i ≤ pos ∧ Occurs ts ss i} r ∨ r = npos ∧ ∀ i, i ≤ pos → ¬Occurs ts ss i) := by
  unfold rfind
  split
  next hlt =>
    refine ⟨npos, rfl, Or.inr ⟨rfl, ?_⟩⟩
    intro i _ hoccurs
    have hfits := hoccurs.fits
    rw [ht.size, hs.size] at hlt
    omega
  next hge =>
    rw [ht.size, hs.size, Nat.not_lt] at hge
    dsimp only
    split
    next hzero =>
      rw [hs.size, List.length_eq_zero_iff] at hzero
      subst hzero
      refine ⟨_, rfl, Or.inl ⟨⟨Nat.min_le_right _ _, ?_⟩, ?_⟩⟩
      . rw [occurs_nil_iff, ht.size]
        exact Nat.min_le_left _ _
      . intro i ⟨hpos, hi⟩
        rw [occurs_nil_iff, ← ht.size] at hi
        exact Nat.le_min.mpr ⟨hi, hpos⟩
    next hpositive =>
      have hne : ss ≠ [] := by
        intro hnil
        rw [hs.size, hnil] at hpositive
        contradiction
      have hn : min (ts.length - ss.length) pos + ss.length ≤ ts.length := by omega
      have hsearch := Env.findEnd_eq
        (ht.holds.take (min (ts.length - ss.length) pos + ss.length)) hs.holds hne
      rw [List.length_take_of_le hn, ← hs.stop_eq] at hsearch
      rw [ht.size, hs.size, result_bind_of_ok hsearch, result_pure]
      simp only [ne_eq, Ptr.add_inj]
      refine ⟨_, rfl, ?_⟩
      cases findEnd_take_spec hne hn with
      | inl hgreatest =>
        have ⟨hle, hoccurs⟩ := hgreatest.1
        have hfits := hoccurs.fits
        have hlength := ht.holds.length_lt
        have hpositive : 0 < ss.length := List.length_pos_iff.mpr hne
        rw [if_pos (by omega), distance_add _ (by omega)]
        refine Or.inl ⟨⟨(add_le_last hfits).mp hle, hoccurs⟩, ?_⟩
        intro i ⟨hpos, hi⟩
        exact hgreatest.2 ⟨(add_le_last hi.fits).mpr hpos, hi⟩
      | inr hnone =>
        rw [hnone.1, if_neg (not_not.mpr rfl)]
        exact Or.inr ⟨rfl, fun i hpos hi => hnone.2 i ((add_le_last hi.fits).mpr hpos) hi⟩

structure ExactSearch (env : Env) (t s : StringPiece) (ts ss : List UInt8) (pos : Nat) : Prop where
  find : ∃ r, (t.find env s pos).result = .ok r
    ∧ (IsLeast {i | pos ≤ i ∧ Occurs ts ss i} r ∧ r ≠ npos
        ∨ r = npos ∧ ∀ i, pos ≤ i → ¬Occurs ts ss i)
  rfind : ∃ r, (t.rfind env s pos).result = .ok r
    ∧ (IsGreatest {i | i ≤ pos ∧ Occurs ts ss i} r ∧ r ≠ npos
        ∨ r = npos ∧ ∀ i, i ≤ pos → ¬Occurs ts ss i)
  substr : ∀ i, (t.find env s pos).result = .ok i ∨ (t.rfind env s pos).result = .ok i →
    i ≠ npos → IsTrue (operatorEq env (t.substr i s.size) s)

theorem occurs_of_found (ht : t.Spans env ts) (hs : s.Spans env ss)
    (h : (t.find env s pos).result = .ok i ∨ (t.rfind env s pos).result = .ok i) (hne : i ≠ npos)
    : Occurs ts ss i := by
  cases h with
  | inl hfind =>
    have ⟨r, hr, hspec⟩ := @find_spec env ts ss t s pos ht hs
    rw [hfind, Except.ok.injEq] at hr
    subst hr
    cases hspec with
    | inl hleast => exact hleast.1.2
    | inr hnone => exact absurd hnone.1 hne
  | inr hrfind =>
    have ⟨r, hr, hspec⟩ := @rfind_spec env ts ss t s pos ht.toCovers hs.toCovers
    rw [hrfind, Except.ok.injEq] at hr
    subst hr
    cases hspec with
    | inl hgreatest => exact hgreatest.1.2
    | inr hnone => exact absurd hnone.1 hne

theorem exactSearch (ht : t.Spans env ts) (hs : s.Spans env ss) : ExactSearch env t s ts ss pos where
  find := by
    have ⟨r, hr, hspec⟩ := @find_spec env ts ss t s pos ht hs
    refine ⟨r, hr, ?_⟩
    cases hspec with
    | inl hleast => exact Or.inl ⟨hleast, ht.ne_npos hleast.1.2⟩
    | inr hnone => exact Or.inr hnone
  rfind := by
    have ⟨r, hr, hspec⟩ := @rfind_spec env ts ss t s pos ht.toCovers hs.toCovers
    refine ⟨r, hr, ?_⟩
    cases hspec with
    | inl hgreatest => exact Or.inl ⟨hgreatest, ht.ne_npos hgreatest.1.2⟩
    | inr hnone => exact Or.inr hnone
  substr := by
    intro i hfound hne
    have hoccurs := occurs_of_found ht hs hfound hne
    have hcovers := ht.toCovers.substr hoccurs.fits
    rw [hoccurs.equal, ← hs.size] at hcovers
    rw [isTrue_operatorEq hcovers hs.toCovers]

theorem exactSearch_aaa
    : have env := Env.ofSection .literal [0x61, 0x61, 0x61] (by decide)
      ExactSearch env ⟨⟨.literal, 0⟩, 3⟩ ⟨⟨.literal, 1⟩, 2⟩ [0x61, 0x61, 0x61] [0x61, 0x61] 1 := by
  intro env
  have ht : StringPiece.Spans env ⟨⟨.literal, 0⟩, 3⟩ [0x61, 0x61, 0x61] :=
    ⟨⟨by decide, rfl⟩, by decide⟩
  have hs : StringPiece.Spans env ⟨⟨.literal, 1⟩, 2⟩ [0x61, 0x61] := ⟨⟨by decide, rfl⟩, by decide⟩
  exact exactSearch ht hs

end StringPiece
end Claire
