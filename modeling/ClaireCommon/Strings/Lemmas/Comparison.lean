import ClaireCommon.Lib.Lexicographic
import ClaireCommon.Strings.Impl.Comparison
import ClaireCommon.Strings.Lemmas.StringPiece

/-!
This module contains the proof that the comparisons of string pieces are one total order: that of the
bytes as unsigned numbers, lexicographically, a proper prefix before what it is a prefix of.
-/

namespace Claire

open Traced Lexicographic

variable {env : Env} {p q : Ptr} {xs ys zs : List UInt8}

namespace Env

theorem Holds.take (h : env.Holds p xs) (n : Nat) : env.Holds p (xs.take n) := by
  rw [← List.take_append_drop n xs, holds_append] at h
  exact h.1

theorem Holds.drop (h : env.Holds p xs) {n : Nat} (hn : n ≤ xs.length)
    : env.Holds (p.add n) (xs.drop n) := by
  rw [← List.take_append_drop n xs, holds_append, List.length_take, Nat.min_eq_left hn] at h
  exact h.2

theorem isSign_sub {x y : UInt8} (hne : x ≠ y)
    : IsSign ((x.toNat : Int) - y.toNat) (x :: xs) (y :: ys) := by
  have hnat : x.toNat ≠ y.toNat := fun h => hne (UInt8.toNat_inj.mp h)
  apply IsSign.of_ne hne
  . rw [UInt8.lt_iff_toNat_lt]
    omega
  . omega
  . rw [UInt8.lt_iff_toNat_lt]
    omega

theorem memcmp_spec {n : Nat} (hx : env.Holds p xs) (hy : env.Holds q ys) (hxs : xs.length = n)
    (hys : ys.length = n) : ∃ r, (env.memcmp p q n).result = .ok r ∧ IsSign r xs ys := by
  induction n generalizing p q xs ys with
  | zero =>
    rw [List.length_eq_zero_iff] at hxs hys
    subst hxs hys
    exact ⟨0, rfl, IsSign.nil⟩
  | succ n ih =>
    have ⟨x, xs', hxs'⟩ := List.exists_cons_of_length_eq_add_one hxs
    have ⟨y, ys', hys'⟩ := List.exists_cons_of_length_eq_add_one hys
    subst hxs' hys'
    unfold memcmp
    rw [result_bind_of_ok (peek_eq_ok.mpr hx.1), result_bind_of_ok (peek_eq_ok.mpr hy.1)]
    split
    next heq =>
      have ⟨r, hr, hsign⟩ := ih hx.2 hy.2 (by simpa using hxs) (by simpa using hys)
      rw [heq]
      exact ⟨r, hr, hsign.cons y⟩
    next hne => exact ⟨_, rfl, isSign_sub hne⟩

end Env

namespace StringPiece

variable {x y z : StringPiece}

theorem memcmp_min (hx : x.Covers env xs) (hy : y.Covers env ys)
    : ∃ r, (env.memcmp x.data y.data (min x.size y.size)).result = .ok r
        ∧ IsSign r (xs.take (min xs.length ys.length)) (ys.take (min xs.length ys.length)) := by
  apply Env.memcmp_spec
  . apply hx.holds.take
  . apply hy.holds.take
  . simp [hx.size, hy.size]
  . simp [hx.size, hy.size]

theorem compare_spec (hx : x.Covers env xs) (hy : y.Covers env ys)
    : ∃ r, (compare env x y).result = .ok r ∧ IsSign r xs ys := by
  have ⟨r, hr, hsign⟩ := memcmp_min hx hy
  unfold compare
  rw [result_bind_of_ok hr]
  have hsizes := And.intro hx.size hy.size
  split
  next hzero =>
    split
    next hlt =>
      refine ⟨-1, rfl, hsign.of_take ?_ ?_⟩ <;> omega
    next hge =>
      split
      next hgt => refine ⟨r + 1, rfl, hsign.of_take ?_ ?_⟩ <;> omega
      next hle => refine ⟨r, rfl, hsign.of_take ?_ ?_⟩ <;> omega
  next hne => refine ⟨r, rfl, hsign.of_take ?_ ?_⟩ <;> omega

theorem operatorLt_eq (hx : x.Covers env xs) (hy : y.Covers env ys)
    : (operatorLt env x y).result = .ok (decide (xs < ys)) := by
  have ⟨r, hr, hsign⟩ := memcmp_min hx hy
  unfold operatorLt
  rw [result_bind_of_ok hr, result_pure, hx.size, hy.size]
  congr 1
  rw [Bool.eq_iff_iff, decide_eq_true_iff, lt_iff_take, ← hsign.neg, ← hsign.zero]
  simp

theorem equalFrom_eq {n : Nat} (hx : env.Holds p xs) (hy : env.Holds q ys) (hxs : xs.length = n)
    (hys : ys.length = n) : (equalFrom env p q n).result = .ok (decide (xs = ys)) := by
  induction n generalizing p q xs ys with
  | zero =>
    rw [List.length_eq_zero_iff] at hxs hys
    subst hxs hys
    rfl
  | succ n ih =>
    have ⟨x, xs', hxs'⟩ := List.exists_cons_of_length_eq_add_one hxs
    have ⟨y, ys', hys'⟩ := List.exists_cons_of_length_eq_add_one hys
    subst hxs' hys'
    unfold equalFrom
    rw [result_bind_of_ok (Env.peek_eq_ok.mpr hx.1), result_bind_of_ok (Env.peek_eq_ok.mpr hy.1)]
    split
    next hne => simp [hne]
    next heq =>
      rw [ih hx.2 hy.2 (by simpa using hxs) (by simpa using hys)]
      simp [not_not.mp heq]

theorem Covers.peek_last (hx : x.Covers env xs) (hpos : 0 < x.size)
    : ∃ last, xs[x.size - 1]? = some last
        ∧ (env.peek (x.data.add (x.size - 1))).result = .ok last := by
  have hlt : x.size - 1 < xs.length := by
    rw [← hx.size]
    omega
  have hlast := List.getElem?_eq_getElem hlt
  exact ⟨_, hlast, Env.peek_eq_ok.mpr (hx.holds.getElem? hlast)⟩

theorem operatorEq_eq (hx : x.Covers env xs) (hy : y.Covers env ys)
    : (operatorEq env x y).result = .ok (decide (xs = ys)) := by
  unfold operatorEq equal
  dsimp only
  split
  next hne =>
    have hxsys : xs ≠ ys := by
      intro heq
      rw [hx.size, hy.size, heq] at hne
      contradiction
    simp [hxsys]
  next hsize =>
    have hsize := not_not.mp hsize
    have hloop := equalFrom_eq hx.holds hy.holds hx.size.symm (hy.size.symm.trans hsize.symm)
    by_cases hpos : x.size > 0
    . have ⟨last, hlast, hpeek⟩ := hx.peek_last hpos
      have ⟨last2, hlast2, hpeek2⟩ := hy.peek_last (hsize ▸ hpos)
      rw [← hsize] at hlast2 hpeek2
      rw [if_pos hpos, result_bind_of_ok hpeek, result_bind_of_ok hpeek2, Traced.pure_bind]
      by_cases hdiffers : last = last2
      . simpa [hdiffers] using hloop
      . have hxsys : xs ≠ ys := by
          intro heq
          rw [heq, hlast2] at hlast
          exact hdiffers (Option.some.inj hlast).symm
        simp [hdiffers, hxsys]
    . rw [if_neg hpos, Traced.pure_bind]
      exact hloop

theorem operatorNe_eq (hx : x.Covers env xs) (hy : y.Covers env ys)
    : (operatorNe env x y).result = .ok (!decide (xs = ys)) := by
  unfold operatorNe
  rw [result_bind_of_ok (operatorEq_eq hx hy), result_pure]

theorem operatorLe_eq (hx : x.Covers env xs) (hy : y.Covers env ys)
    : (operatorLe env x y).result = .ok (!decide (ys < xs)) := by
  unfold operatorLe operatorGt
  rw [result_bind_of_ok (operatorLt_eq hy hx), result_pure]

theorem operatorGe_eq (hx : x.Covers env xs) (hy : y.Covers env ys)
    : (operatorGe env x y).result = .ok (!decide (xs < ys)) := by
  unfold operatorGe
  rw [result_bind_of_ok (operatorLt_eq hx hy), result_pure]

theorem startsWith_eq (hx : x.Covers env xs) (hy : y.Covers env ys)
    : (startsWith env x y).result = .ok (decide (ys <+: xs)) := by
  unfold startsWith
  split
  next hge =>
    rw [hx.size, hy.size] at hge
    have ⟨r, hr, hsign⟩ := Env.memcmp_spec (hx.holds.take ys.length) hy.holds
      (List.length_take_of_le hge) rfl
    rw [hy.size, result_bind_of_ok hr, result_pure]
    congr 1
    rw [Bool.eq_iff_iff, decide_eq_true_iff, decide_eq_true_iff, hsign.zero, List.prefix_iff_eq_take]
    exact eq_comm
  next hlt =>
    have hnot : ¬ys <+: xs := by
      intro h
      have hle := h.length_le
      rw [hx.size, hy.size] at hlt
      contradiction
    simp [hnot]

theorem endWith_eq (hx : x.Covers env xs) (hy : y.Covers env ys)
    : (endWith env x y).result = .ok (decide (ys <:+ xs)) := by
  unfold endWith
  split
  next hge =>
    rw [hx.size, hy.size] at hge
    have ⟨r, hr, hsign⟩ := Env.memcmp_spec
      (hx.holds.drop (Nat.sub_le xs.length ys.length)) hy.holds
      (by
        rw [List.length_drop]
        omega) rfl
    rw [hx.size, hy.size, result_bind_of_ok hr, result_pure]
    congr 1
    rw [Bool.eq_iff_iff, decide_eq_true_iff, decide_eq_true_iff, hsign.zero, List.suffix_iff_eq_drop]
    exact eq_comm
  next hlt =>
    have hnot : ¬ys <:+ xs := by
      intro h
      have hle := h.length_le
      rw [hx.size, hy.size] at hlt
      contradiction
    simp [hnot]

def IsTrue (x : Reader Bool) : Prop := x.result = .ok true

-- One of the operators is the negation of the other, none of them stops.
def IsNegation (x y : Reader Bool) : Prop := ∃ b, x.result = .ok b ∧ y.result = .ok !b

structure TotalOrder (env : Env) (x y z : StringPiece) (xs ys : List UInt8) : Prop where
  compares : ∃ r, (compare env x y).result = .ok r ∧ (r < 0 ↔ IsTrue (operatorLt env x y))
    ∧ (r = 0 ↔ IsTrue (operatorEq env x y)) ∧ (0 < r ↔ IsTrue (operatorGt env x y))
  one : IsTrue (operatorLt env x y) ∨ IsTrue (operatorEq env x y) ∨ IsTrue (operatorLt env y x)
  lt_ne : ¬(IsTrue (operatorLt env x y) ∧ IsTrue (operatorEq env x y))
  lt_asymm : ¬(IsTrue (operatorLt env x y) ∧ IsTrue (operatorLt env y x))
  gt_ne : ¬(IsTrue (operatorEq env x y) ∧ IsTrue (operatorLt env y x))
  trans : IsTrue (operatorLt env x y) → IsTrue (operatorLt env y z) → IsTrue (operatorLt env x z)
  le : IsNegation (operatorGt env x y) (operatorLe env x y)
  ge : IsNegation (operatorLt env x y) (operatorGe env x y)
  ne : IsNegation (operatorEq env x y) (operatorNe env x y)
  -- The order of lists is lexicographic, that of `UInt8` is unsigned.
  lexicographic : IsTrue (operatorLt env x y) ↔ xs < ys
  startsWith : IsTrue (startsWith env x y) ↔ ∃ rest, xs = ys ++ rest
  endWith : IsTrue (endWith env x y) ↔ ∃ front, xs = front ++ ys

theorem isTrue_operatorLt (hx : x.Covers env xs) (hy : y.Covers env ys)
    : IsTrue (operatorLt env x y) ↔ xs < ys := by
  simp [IsTrue, operatorLt_eq hx hy]

theorem isTrue_operatorEq (hx : x.Covers env xs) (hy : y.Covers env ys)
    : IsTrue (operatorEq env x y) ↔ xs = ys := by
  simp [IsTrue, operatorEq_eq hx hy]

theorem totalOrder (hx : x.Covers env xs) (hy : y.Covers env ys) (hz : z.Covers env zs)
    : TotalOrder env x y z xs ys where
  compares := by
    have ⟨r, hr, hsign⟩ := compare_spec hx hy
    refine ⟨r, hr, ?_, ?_, ?_⟩
    . rw [hsign.neg, isTrue_operatorLt hx hy]
    . rw [hsign.zero, isTrue_operatorEq hx hy]
    . rw [hsign.pos]
      exact (isTrue_operatorLt hy hx).symm
  one := by
    have ⟨r, _, hsign⟩ := compare_spec hx hy
    rw [isTrue_operatorLt hx hy, isTrue_operatorEq hx hy, isTrue_operatorLt hy hx, ← hsign.neg,
      ← hsign.zero, ← hsign.pos]
    omega
  lt_ne := by
    have ⟨r, _, hsign⟩ := compare_spec hx hy
    rw [isTrue_operatorLt hx hy, isTrue_operatorEq hx hy, ← hsign.neg, ← hsign.zero]
    omega
  lt_asymm := by
    have ⟨r, _, hsign⟩ := compare_spec hx hy
    rw [isTrue_operatorLt hx hy, isTrue_operatorLt hy hx, ← hsign.neg, ← hsign.pos]
    omega
  gt_ne := by
    have ⟨r, _, hsign⟩ := compare_spec hx hy
    rw [isTrue_operatorEq hx hy, isTrue_operatorLt hy hx, ← hsign.zero, ← hsign.pos]
    omega
  trans := by
    rw [isTrue_operatorLt hx hy, isTrue_operatorLt hy hz, isTrue_operatorLt hx hz]
    intro hxy hyz
    exact List.lt_trans hxy hyz
  le := ⟨decide (ys < xs), operatorLt_eq hy hx, operatorLe_eq hx hy⟩
  ge := ⟨decide (xs < ys), operatorLt_eq hx hy, operatorGe_eq hx hy⟩
  ne := ⟨decide (xs = ys), operatorEq_eq hx hy, operatorNe_eq hx hy⟩
  lexicographic := isTrue_operatorLt hx hy
  startsWith := by
    simp only [IsTrue, startsWith_eq hx hy, Except.ok.injEq, decide_eq_true_iff]
    exact ⟨fun ⟨rest, h⟩ => ⟨rest, h.symm⟩, fun ⟨rest, h⟩ => ⟨rest, h.symm⟩⟩
  endWith := by
    simp only [IsTrue, endWith_eq hx hy, Except.ok.injEq, decide_eq_true_iff]
    exact ⟨fun ⟨front, h⟩ => ⟨front, h.symm⟩, fun ⟨front, h⟩ => ⟨front, h.symm⟩⟩

theorem totalOrder_a_ab_b
    : have env := Env.ofSection .literal [0x61, 0x62] (by decide)
      TotalOrder env ⟨⟨.literal, 0⟩, 1⟩ ⟨⟨.literal, 0⟩, 2⟩ ⟨⟨.literal, 1⟩, 1⟩ [0x61] [0x61, 0x62] := by
  intro env
  have hx : StringPiece.Covers env ⟨⟨.literal, 0⟩, 1⟩ [0x61] := ⟨by decide, rfl⟩
  have hy : StringPiece.Covers env ⟨⟨.literal, 0⟩, 2⟩ [0x61, 0x62] := ⟨by decide, rfl⟩
  have hz : StringPiece.Covers env ⟨⟨.literal, 1⟩, 1⟩ [0x62] := ⟨by decide, rfl⟩
  exact totalOrder hx hy hz

end StringPiece
end Claire
