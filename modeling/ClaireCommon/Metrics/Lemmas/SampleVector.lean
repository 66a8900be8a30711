import ClaireCommon.Metrics.Impl.SampleVector
import ClaireCommon.Metrics.Lemmas.Histogram

/-!
This module contains what adding and subtracting samples does to the buckets.
-/

namespace Claire

namespace SampleVector

-- What the constructor promises, over ranges that increase
structure Ranged (samples : SampleVector) : Prop where
  length : samples.counts.length = samples.bucketRanges.bucketCount
  increasing : samples.bucketRanges.Increasing

structure WellFormed (samples : SampleVector) : Prop extends Ranged samples where
  pos : 0 < samples.counts.length
  count : ∀ c ∈ samples.counts, -2 ^ 31 ≤ c ∧ c < 2 ^ 31
  sum : -2 ^ 63 ≤ samples.sum ∧ samples.sum < 2 ^ 63

def count (samples : SampleVector) (i : Nat) : Int := samples.counts.getD i 0

structure Matches (samples other : SampleVector) (i j : Nat) : Prop where
  left : i < samples.counts.length
  right : j < other.counts.length
  lower : samples.bucketRanges.range i = other.bucketRanges.range j
  upper : samples.bucketRanges.range (i + 1) = other.bucketRanges.range (j + 1)

theorem Ranged.eq_of_matches_left {samples other : SampleVector} (h : samples.Ranged) {i i' j : Nat}
    (hmatch : Matches samples other i j) (hmatch' : Matches samples other i' j) : i = i' := by
  have := h.length
  have := hmatch.left
  have := hmatch'.left
  apply h.increasing.range_inj (by omega) (by omega)
  rw [hmatch.lower, hmatch'.lower]

theorem Ranged.eq_of_matches_right {samples other : SampleVector} (h : other.Ranged) {i j j' : Nat}
    (hmatch : Matches samples other i j) (hmatch' : Matches samples other i j') : j = j' := by
  have := h.length
  have := hmatch.right
  have := hmatch'.right
  apply h.increasing.range_inj (by omega) (by omega)
  rw [← hmatch.lower, hmatch'.lower]

theorem count_increaseCount {samples : SampleVector} {i : Nat} (hi : i < samples.counts.length)
    (index : Nat) (n : Int)
    : (samples.increaseCount index n).count i =
        if index = i then int32 (samples.count i + n) else samples.count i :=
  getD_modify _ hi

end SampleVector

namespace SampleVectorIterator

theorem count_of_lt_skipEmptyBuckets {counts : List Int} {index j : Nat}
    (hge : index ≤ j) (hlt : j < skipEmptyBuckets counts index) : counts.getD j 0 = 0 := by
  fun_induction skipEmptyBuckets counts index with
  | case1 => omega
  | case2 index hmore hzero ih =>
    by_cases heq : j = index
    . rw [heq]
      simpa using hzero
    . exact ih (by omega) hlt
  | case3 => omega

structure Over (iter : SampleVectorIterator) (other : SampleVector) : Prop where
  counts : iter.counts = other.counts
  bucketRanges : iter.bucketRanges = other.bucketRanges

theorem Over.next {iter : SampleVectorIterator} {other : SampleVector} (h : iter.Over other)
    (hdone : iter.done = false) : (iter.next hdone).Over other :=
  ⟨h.counts, h.bucketRanges⟩

theorem Over.count_ne_zero {iter : SampleVectorIterator} {other : SampleVector} (h : iter.Over other)
    (hdone : iter.done = false)
    : iter.index < other.counts.length ∧ other.count iter.index ≠ 0 := by
  have hlt := index_lt hdone
  have hne := iter.count_ne_zero hlt
  rw [h.counts] at hlt hne
  exact ⟨hlt, hne⟩

theorem Over.get {iter : SampleVectorIterator} {other : SampleVector} (h : iter.Over other)
    (hdone : iter.done = false)
    : iter.get hdone = (other.bucketRanges.range iter.index,
        other.bucketRanges.range (iter.index + 1), other.count iter.index) := by
  unfold SampleVectorIterator.get SampleVector.count
  rw [h.counts, h.bucketRanges]

theorem Over.index_next_le {iter : SampleVectorIterator} {other : SampleVector} (h : iter.Over other)
    (hdone : iter.done = false) {j : Nat} (hlt : iter.index < j) (hcount : other.count j ≠ 0)
    : (iter.next hdone).index ≤ j := by
  by_contra hgt
  apply hcount
  unfold SampleVector.count
  rw [← h.counts]
  apply count_of_lt_skipEmptyBuckets hlt
  exact Nat.lt_of_not_le hgt

end SampleVectorIterator

namespace SampleVector

theorem iterator_eq_ok {samples : SampleVector} (h : samples.WellFormed)
    : ∃ iter, samples.iterator = .ok iter ∧ iter.Over samples ∧
        ∀ j, samples.count j ≠ 0 → iter.index ≤ j := by
  refine ⟨SampleVectorIterator.startingAt samples.counts samples.bucketRanges 0 (Nat.zero_le _),
    ?_, ⟨rfl, rfl⟩, ?_⟩
  . unfold iterator SampleVectorIterator.create
    rw [decide_eq_true (Nat.le_of_eq h.length)]
    rfl
  . intro j hcount
    by_contra hgt
    apply hcount
    exact SampleVectorIterator.count_of_lt_skipEmptyBuckets (Nat.zero_le j) (Nat.lt_of_not_le hgt)

structure Merged (op : Operator) (start : Nat) (other samples result : SampleVector) : Prop where
  bucketRanges : result.bucketRanges = samples.bucketRanges
  sum : result.sum = samples.sum
  length : result.counts.length = samples.counts.length
  matched : ∀ i j, start ≤ j → other.count j ≠ 0 → Matches samples other i j →
    result.count i = int32 (samples.count i + op.apply (other.count j))
  unmatched : ∀ i, i < samples.counts.length →
    (∀ j, start ≤ j → other.count j ≠ 0 → ¬Matches samples other i j) →
    result.count i = samples.count i

-- Every bucket of `other` from `start` on that is not empty is one of `samples`.
def Covers (samples other : SampleVector) (start : Nat) : Prop :=
  ∀ j, start ≤ j → j < other.counts.length → other.count j ≠ 0 → ∃ i, Matches samples other i j

theorem matches_congr {samples samples' other : SampleVector}
    (hlength : samples.counts.length = samples'.counts.length)
    (hranges : samples.bucketRanges = samples'.bucketRanges) {i j : Nat}
    : Matches samples other i j ↔ Matches samples' other i j := by
  constructor
  . intro ⟨hleft, hright, hlower, hupper⟩
    rw [hlength] at hleft
    rw [hranges] at hlower hupper
    exact ⟨hleft, hright, hlower, hupper⟩
  . intro ⟨hleft, hright, hlower, hupper⟩
    rw [← hlength] at hleft
    rw [← hranges] at hlower hupper
    exact ⟨hleft, hright, hlower, hupper⟩

theorem covers_congr {samples samples' other : SampleVector}
    (hlength : samples.counts.length = samples'.counts.length)
    (hranges : samples.bucketRanges = samples'.bucketRanges) {start : Nat}
    : Covers samples other start ↔ Covers samples' other start := by
  unfold Covers
  simp only [matches_congr hlength hranges]

theorem matches_increaseCount {samples other : SampleVector} {index i j : Nat} {n : Int}
    : Matches (samples.increaseCount index n) other i j ↔ Matches samples other i j :=
  matches_congr (length_increaseCount _ _ _) rfl

theorem matches_increaseSum {samples other : SampleVector} {i j : Nat} {diff : Int}
    : Matches (samples.increaseSum diff) other i j ↔ Matches samples other i j := by
  apply matches_congr
  . rfl
  . rfl

theorem Ranged.increaseCount {samples : SampleVector} (h : samples.Ranged) (index : Nat) (n : Int)
    : (samples.increaseCount index n).Ranged where
  length := by
    rw [length_increaseCount]
    exact h.length
  increasing := h.increasing

def Passed (samples : SampleVector) (index : Nat) (iter : SampleVectorIterator) (other : SampleVector)
    : Prop :=
  iter.done = false → ∀ i, i < index →
    samples.bucketRanges.range i < other.bucketRanges.range iter.index

theorem covers_of_matches {samples other : SampleVector} {iter : SampleVectorIterator} {index : Nat}
    (hover : iter.Over other) (hdone : iter.done = false)
    (hmatch : Matches samples other index iter.index)
    : Covers samples other (iter.next hdone).index ↔ Covers samples other iter.index := by
  constructor
  . intro h j hge hlt hcount
    by_cases heq : j = iter.index
    . rw [heq]
      exact ⟨index, hmatch⟩
    . exact h j (hover.index_next_le hdone (by omega) hcount) hlt hcount
  . intro h j hge
    have := SampleVectorIterator.index_lt_next hdone
    exact h j (by omega)

theorem Merged.of_matches {op : Operator} {samples other result : SampleVector}
    {iter : SampleVectorIterator} {index : Nat} (hsamples : samples.Ranged) (hother : other.Ranged)
    (hover : iter.Over other) (hdone : iter.done = false)
    (hmatch : Matches samples other index iter.index)
    (h : Merged op (iter.next hdone).index other
      (samples.increaseCount index (op.apply (other.count iter.index))) result)
    : Merged op iter.index other samples result where
  bucketRanges := h.bucketRanges
  sum := h.sum
  length := by rw [h.length, length_increaseCount]
  matched := by
    intro i j hge hcount hij
    by_cases heq : j = iter.index
    . rw [heq] at hij ⊢
      have hi : index = i := hsamples.eq_of_matches_left hmatch hij
      rw [h.unmatched i, count_increaseCount hij.left, if_pos hi]
      . rw [length_increaseCount]
        exact hij.left
      . intro j' hge' _ hij'
        rw [matches_increaseCount] at hij'
        have := hother.eq_of_matches_right hij hij'
        have := SampleVectorIterator.index_lt_next hdone
        omega
    . have hne : index ≠ i := by
        intro hi
        rw [hi] at hmatch
        exact heq (hother.eq_of_matches_right hij hmatch)
      have hnext := hover.index_next_le hdone (by omega) hcount
      rw [h.matched i j hnext hcount (matches_increaseCount.mpr hij), count_increaseCount hij.left,
        if_neg hne]
  unmatched := by
    intro i hi hnone
    have hne : index ≠ i := by
      intro heq
      rw [heq] at hmatch
      exact hnone iter.index (Nat.le_refl _) (hover.count_ne_zero hdone).2 hmatch
    rw [h.unmatched i, count_increaseCount hi, if_neg hne]
    . rw [length_increaseCount]
      exact hi
    . intro j hge hcount hij
      have := SampleVectorIterator.index_lt_next hdone
      exact hnone j (by omega) hcount (matches_increaseCount.mp hij)

theorem Passed.next {samples other : SampleVector} {iter : SampleVectorIterator} {index : Nat}
    (hother : other.Ranged) (hover : iter.Over other) (hdone : iter.done = false)
    (h : Passed samples index iter other) : Passed samples index (iter.next hdone) other := by
  intro hdone' i hi
  have hlt := h hdone i hi
  have hnext := SampleVectorIterator.index_lt_next hdone
  have hbound := SampleVectorIterator.index_lt hdone'
  have hcounts := (hover.next hdone).counts
  have := hother.length
  rw [hcounts] at hbound
  have := hother.increasing.range_lt hnext (by omega)
  omega

theorem not_covers {samples other : SampleVector} {iter : SampleVectorIterator} {index : Nat}
    (hsamples : samples.Ranged) (hover : iter.Over other) (hdone : iter.done = false)
    (hpassed : Passed samples index iter other)
    (hindex : index < samples.counts.length →
      other.bucketRanges.range iter.index ≤ samples.bucketRanges.range index ∧
      ¬Matches samples other index iter.index)
    : ¬Covers samples other iter.index := by
  intro hcovers
  have ⟨hlt, hne⟩ := hover.count_ne_zero hdone
  have ⟨i, hi⟩ := hcovers iter.index (Nat.le_refl _) hlt hne
  have hlower := hi.lower
  have hleft := hi.left
  have := hsamples.length
  by_cases hpast : i < index
  . have := hpassed hdone i hpast
    omega
  . have ⟨hle, hnot⟩ := hindex (by omega)
    by_cases heq : i = index
    . rw [heq] at hi
      exact hnot hi
    . have := hsamples.increasing.range_lt (show index < i by omega) (by omega)
      omega

-- By induction on the two cursors
theorem addSubtractImpl_spec (op : Operator) {samples other : SampleVector} {index : Nat}
    {iter : SampleVectorIterator} (hsamples : samples.Ranged) (hother : other.Ranged)
    (hover : iter.Over other) (hpassed : Passed samples index iter other)
    : ((addSubtractImpl op samples index iter).1 = true ↔ Covers samples other iter.index) ∧
        ((addSubtractImpl op samples index iter).1 = true →
          Merged op iter.index other samples (addSubtractImpl op samples index iter).2) := by
  fun_induction addSubtractImpl op samples index iter with
  | case1 samples index iter hmore min max count hget hbounds ih =>
    rw [hover.get hmore.2, Prod.mk.injEq, Prod.mk.injEq] at hget
    have ⟨hmin, hmax, hcount⟩ := hget
    rw [← hmin, ← hmax] at hbounds
    rw [← hcount] at ih ⊢
    have hmatch : Matches samples other index iter.index :=
      ⟨hmore.1, (hover.count_ne_zero hmore.2).1, hbounds.1.symm, hbounds.2.symm⟩
    have ⟨hiff, hmerged⟩ := ih (hsamples.increaseCount _ _) (hover.next hmore.2)
      (hpassed.next hother hover hmore.2)
    constructor
    . rw [hiff, ← covers_of_matches hover hmore.2 hmatch]
      exact covers_congr (length_increaseCount _ _ _) rfl
    . intro hret
      exact (hmerged hret).of_matches hsamples hother hover hmore.2 hmatch
  | case2 samples index iter hmore min max count hget hbounds hgt ih =>
    rw [hover.get hmore.2, Prod.mk.injEq] at hget
    apply ih hsamples hover
    intro hdone i hi
    rw [← hget.1] at hgt
    by_cases heq : i = index
    . rw [heq]
      exact hgt
    . exact hpassed hdone i (by omega)
  | case3 samples index iter hmore min max count hget hbounds hgt =>
    rw [hover.get hmore.2, Prod.mk.injEq, Prod.mk.injEq] at hget
    have hnot : ¬Covers samples other iter.index := by
      apply not_covers hsamples hover hmore.2 hpassed
      intro _
      constructor
      . rw [hget.1]
        omega
      . intro hmatch
        apply hbounds
        rw [← hget.1, ← hget.2.1]
        exact ⟨hmatch.lower.symm, hmatch.upper.symm⟩
    simp [hnot]
  | case4 samples index iter hend =>
    cases hdone : iter.done with
    | true =>
      have hpast : other.counts.length ≤ iter.index := by
        rw [← hover.counts]
        unfold SampleVectorIterator.done at hdone
        rw [decide_eq_true_eq] at hdone
        omega
      constructor
      . simp only [true_iff]
        intro j hge hlt
        omega
      . intro _
        refine ⟨rfl, rfl, rfl, ?_, fun _ _ _ => rfl⟩
        intro i j hge _ hij
        have := hij.right
        omega
    | false =>
      have hnot : ¬Covers samples other iter.index := by
        apply not_covers hsamples hover hdone hpassed
        intro hlt
        exact absurd ⟨hlt, hdone⟩ hend
      simp [hnot]

-- `op` changes the buckets that have the bounds of a bucket of `other`, and the sum.
structure Changed (op : Operator) (samples other result : SampleVector) : Prop where
  bucketRanges : result.bucketRanges = samples.bucketRanges
  length : result.counts.length = samples.counts.length
  sum : result.sum = int64 (samples.sum + op.apply other.sum)
  matched : ∀ i j, Matches samples other i j →
    result.count i = int32 (samples.count i + op.apply (other.count j))
  unmatched : ∀ i, i < samples.counts.length → (∀ j, ¬Matches samples other i j) →
    result.count i = samples.count i

theorem WellFormed.count_range {samples : SampleVector} (h : samples.WellFormed) {i : Nat}
    (hi : i < samples.counts.length) : -2 ^ 31 ≤ samples.count i ∧ samples.count i < 2 ^ 31 := by
  unfold SampleVector.count
  rw [List.getD_eq_getElem?_getD, List.getElem?_eq_getElem hi]
  exact h.count _ (List.getElem_mem hi)

@[simp]
theorem Operator.apply_zero (op : Operator) : op.apply 0 = 0 := by
  cases op <;> rfl

theorem Covers.of_first {samples other : SampleVector} {start : Nat}
    (hfirst : ∀ j, other.count j ≠ 0 → start ≤ j)
    : Covers samples other start ↔ Covers samples other 0 := by
  constructor
  . intro h j _ hlt hcount
    exact h j (hfirst j hcount) hlt hcount
  . intro h j _
    exact h j (Nat.zero_le j)

theorem Merged.changed {op : Operator} {start : Nat} {samples other result : SampleVector}
    (hsamples : samples.WellFormed) (hother : other.WellFormed)
    (hfirst : ∀ j, other.count j ≠ 0 → start ≤ j)
    (h : Merged op start other (samples.increaseSum (op.apply other.sum)) result)
    : Changed op samples other result where
  bucketRanges := h.bucketRanges
  length := h.length
  sum := h.sum
  matched := by
    intro i j hij
    by_cases hzero : other.count j = 0
    . have hi := hsamples.count_range hij.left
      rw [hzero, Operator.apply_zero, Int.add_zero, int32_of_range hi.1 hi.2]
      apply h.unmatched i hij.left
      -- The bucket is the only one with these bounds.
      intro j' _ hcount hij'
      rw [matches_increaseSum] at hij'
      rw [hother.toRanged.eq_of_matches_right hij' hij] at hcount
      exact hcount hzero
    . exact h.matched i j (hfirst j hzero) hzero (matches_increaseSum.mpr hij)
  unmatched := by
    intro i hi hnone
    apply h.unmatched i hi
    intro j _ _ hij
    exact hnone j (matches_increaseSum.mp hij)

theorem addSubtract_eq (op : Operator) {samples other : SampleVector} (hsamples : samples.WellFormed)
    (hother : other.WellFormed)
    : ∃ iter result, other.iterator = .ok iter ∧
        addSubtractImpl op (samples.increaseSum (op.apply other.sum)) 0 iter = result ∧
        (result.1 = true ↔ Covers samples other 0) ∧
        (result.1 = true → Changed op samples other result.2) ∧
        addSubtract op samples other = if result.1 then .ok result.2 else .error .success := by
  have ⟨iter, hiter, hover, hfirst⟩ := iterator_eq_ok hother
  have hranged : (samples.increaseSum (op.apply other.sum)).Ranged :=
    ⟨hsamples.length, hsamples.increasing⟩
  have hpassed : Passed (samples.increaseSum (op.apply other.sum)) 0 iter other := by
    intro _ i hi
    omega
  have ⟨hiff, hmerged⟩ := addSubtractImpl_spec op hranged hother.toRanged hover hpassed
  refine ⟨iter, _, hiter, rfl, ?_, ?_, ?_⟩
  . rw [hiff, ← Covers.of_first hfirst]
    apply covers_congr
    . rfl
    . rfl
  . intro hret
    exact (hmerged hret).changed hsamples hother hfirst
  . unfold addSubtract
    rw [hiter]
    cases hret : (addSubtractImpl op (samples.increaseSum (op.apply other.sum)) 0 iter).1 with
    | true => simp [bind, Except.bind, pure, Except.pure, check, hret]
    | false => simp [bind, Except.bind, check, hret]

theorem count_range_of_changed {op : Operator} {samples other result : SampleVector}
    (hsamples : samples.WellFormed) (h : Changed op samples other result) {i : Nat}
    (hi : i < samples.counts.length) : -2 ^ 31 ≤ result.count i ∧ result.count i < 2 ^ 31 := by
  by_cases hmatch : ∃ j, Matches samples other i j
  . have ⟨j, hij⟩ := hmatch
    rw [h.matched i j hij]
    apply int32_range
  . rw [h.unmatched i hi fun j hij => hmatch ⟨j, hij⟩]
    exact hsamples.count_range hi

theorem Changed.wellFormed {op : Operator} {samples other result : SampleVector}
    (hsamples : samples.WellFormed) (h : Changed op samples other result) : result.WellFormed where
  length := by rw [h.length, h.bucketRanges, hsamples.length]
  increasing := by
    rw [h.bucketRanges]
    exact hsamples.increasing
  pos := by
    rw [h.length]
    exact hsamples.pos
  count := by
    intro c hc
    have ⟨i, hi, heq⟩ := List.mem_iff_getElem.mp hc
    have hrange := count_range_of_changed hsamples h (by rw [← h.length]; exact hi)
    unfold SampleVector.count at hrange
    rw [List.getD_eq_getElem?_getD, List.getElem?_eq_getElem hi, heq] at hrange
    exact hrange
  sum := by
    rw [h.sum]
    apply int64_range

theorem eq_of_counts {samples samples' : SampleVector}
    (hranges : samples.bucketRanges = samples'.bucketRanges) (hsum : samples.sum = samples'.sum)
    (hlength : samples.counts.length = samples'.counts.length)
    (hcount : ∀ i, i < samples'.counts.length → samples.count i = samples'.count i)
    : samples = samples' := by
  have hcounts : samples.counts = samples'.counts := by
    apply List.ext_getElem hlength
    intro i hi hi'
    have h := hcount i hi'
    unfold SampleVector.count at h
    rw [List.getD_eq_getElem?_getD, List.getD_eq_getElem?_getD, List.getElem?_eq_getElem hi,
      List.getElem?_eq_getElem hi'] at h
    exact h
  cases samples
  cases samples'
  simp only [SampleVector.mk.injEq]
  exact ⟨hcounts, hranges, hsum⟩

theorem eq_of_changed {samples other added result : SampleVector} (hsamples : samples.WellFormed)
    (hadd : Changed .add samples other added) (hsubtract : Changed .subtract added other result)
    : result = samples := by
  apply eq_of_counts
  . rw [hsubtract.bucketRanges, hadd.bucketRanges]
  . rw [hsubtract.sum, hadd.sum, int64_int64_add]
    have hzero : samples.sum + Operator.add.apply other.sum + Operator.subtract.apply other.sum =
        samples.sum := Int.add_neg_cancel_right _ _
    rw [hzero, int64_of_range hsamples.sum.1 hsamples.sum.2]
  . rw [hsubtract.length, hadd.length]
  . intro i hi
    have hrange := hsamples.count_range hi
    have hmatches {j : Nat} : Matches added other i j ↔ Matches samples other i j :=
      matches_congr hadd.length hadd.bucketRanges
    by_cases hmatch : ∃ j, Matches samples other i j
    . have ⟨j, hij⟩ := hmatch
      rw [hsubtract.matched i j (hmatches.mpr hij), hadd.matched i j hij, int32_int32_add]
      have hzero : samples.count i + Operator.add.apply (other.count j) +
          Operator.subtract.apply (other.count j) = samples.count i := Int.add_neg_cancel_right _ _
      rw [hzero, int32_of_range hrange.1 hrange.2]
    . rw [hsubtract.unmatched i (by rw [hadd.length]; exact hi), hadd.unmatched i hi]
      . intro j hij
        exact hmatch ⟨j, hij⟩
      . intro j hij
        exact hmatch ⟨j, hmatches.mp hij⟩

theorem getD_replicate_zero (n i : Nat) : (List.replicate n (0 : Int)).getD i 0 = 0 := by
  rw [List.getD_eq_getElem?_getD, List.getElem?_replicate]
  split <;> rfl

theorem create_wellFormed {ranges : BucketRanges} (hincreasing : ranges.Increasing)
    (hpos : 0 < ranges.bucketCount)
    : ∃ samples, create ranges = .ok samples ∧ samples.WellFormed ∧ samples.bucketRanges = ranges ∧
        samples.sum = 0 ∧ ∀ i, samples.count i = 0 := by
  refine ⟨⟨List.replicate ranges.bucketCount 0, ranges, 0⟩, ?_, ?_, rfl, rfl, ?_⟩
  . unfold create
    rw [decide_eq_true (Nat.succ_le_of_lt hpos)]
    rfl
  . refine ⟨⟨List.length_replicate, hincreasing⟩, ?_, ?_, ?_⟩
    . dsimp only
      rw [List.length_replicate]
      exact hpos
    . intro c hc
      rw [List.eq_of_mem_replicate hc]
      decide
    . dsimp only
      omega
  . intro i
    apply getD_replicate_zero

end SampleVector

theorem Histogram.snapshotSampleVector_eq {h : Histogram} (hsamples : h.samples.WellFormed)
    (hranges : h.samples.bucketRanges = h.bucketRanges)
    : h.snapshotSampleVector = .ok h.samples := by
  have hincreasing := hsamples.increasing
  have hpos := hsamples.pos
  have hlength := hsamples.length
  rw [hranges] at hincreasing hlength
  have ⟨fresh, hfresh, hwell, hown, hsum, hzero⟩ :=
    SampleVector.create_wellFormed hincreasing (by omega)
  have hmatch : ∀ i, i < h.samples.counts.length → SampleVector.Matches fresh h.samples i i := by
    intro i hi
    refine ⟨?_, hi, ?_, ?_⟩
    . rw [hwell.length, hown, ← hlength]
      exact hi
    . rw [hown, hranges]
    . rw [hown, hranges]
  have ⟨iter, result, _, _, hiff, hchanged, hadd⟩ :=
    SampleVector.addSubtract_eq .add hwell hsamples
  have hret : result.1 = true := by
    rw [hiff]
    intro j _ hj _
    exact ⟨j, hmatch j hj⟩
  have hchanged := hchanged hret
  have heq : result.2 = h.samples := by
    apply SampleVector.eq_of_counts
    . rw [hchanged.bucketRanges, hown, hranges]
    . rw [hchanged.sum, hsum, Int.zero_add]
      exact int64_of_range hsamples.sum.1 hsamples.sum.2
    . rw [hchanged.length, hwell.length, hown, hlength]
    . intro i hi
      have hrange := hsamples.count_range hi
      rw [hchanged.matched i i (hmatch i hi), hzero, Int.zero_add]
      exact int32_of_range hrange.1 hrange.2
  unfold snapshotSampleVector
  rw [hfresh]
  rw [heq, hret, if_pos rfl] at hadd
  exact hadd

structure SampleVector.MergesExactly (samples other : SampleVector) : Prop where
  iterator : ∃ iter, other.iterator = .ok iter ∧
    ∀ op, (addSubtractImpl op samples 0 iter).1 = true ↔ Covers samples other 0
  add : Covers samples other 0 → ∃ result, samples.add other = .ok result ∧
    Changed .add samples other result
  subtract : Covers samples other 0 → ∃ result, samples.subtract other = .ok result ∧
    Changed .subtract samples other result
  restores : ∀ result, samples.add other = .ok result → result.subtract other = .ok samples

theorem SampleVector.covers_of_add {samples other result : SampleVector} (hsamples : samples.WellFormed)
    (hother : other.WellFormed) (h : samples.add other = .ok result)
    : Covers samples other 0 ∧ Changed .add samples other result := by
  have ⟨iter, added, _, _, hiff, hchanged, hadd⟩ := addSubtract_eq .add hsamples hother
  unfold SampleVector.add at h
  rw [hadd] at h
  split at h
  . next hret =>
    injection h with h
    rw [← h]
    exact ⟨hiff.mp hret, hchanged hret⟩
  . contradiction

theorem SampleVector.exists_of_covers (op : Operator) {samples other : SampleVector}
    (hsamples : samples.WellFormed) (hother : other.WellFormed) (h : Covers samples other 0)
    : ∃ result, addSubtract op samples other = .ok result ∧ Changed op samples other result := by
  have ⟨iter, result, _, _, hiff, hchanged, heq⟩ := addSubtract_eq op hsamples hother
  have hret := hiff.mpr h
  rw [if_pos hret] at heq
  exact ⟨_, heq, hchanged hret⟩

theorem SampleVector.mergesExactly {samples other : SampleVector} {h : Histogram}
    (hsamples : samples.WellFormed) (hother : other.WellFormed) (hown : h.samples.WellFormed)
    (hranges : h.samples.bucketRanges = h.bucketRanges)
    : MergesExactly samples other ∧ h.snapshotSampleVector = .ok h.samples := by
  refine ⟨⟨?_, ?_, ?_, ?_⟩, Histogram.snapshotSampleVector_eq hown hranges⟩
  . have ⟨iter, hiter, hover, hfirst⟩ := iterator_eq_ok hother
    refine ⟨iter, hiter, ?_⟩
    intro op
    have hpassed : Passed samples 0 iter other := by
      intro _ i hi
      omega
    rw [(addSubtractImpl_spec op hsamples.toRanged hother.toRanged hover hpassed).1]
    exact Covers.of_first hfirst
  . exact exists_of_covers .add hsamples hother
  . exact exists_of_covers .subtract hsamples hother
  . intro added hadd
    have ⟨hcovers, hchanged⟩ := covers_of_add hsamples hother hadd
    have hcovers' := (covers_congr hchanged.length hchanged.bucketRanges).mpr hcovers
    have ⟨result, hresult, hsubtracted⟩ :=
      exists_of_covers .subtract (hchanged.wellFormed hsamples) hother hcovers'
    rw [eq_of_changed hsamples hchanged hsubtracted] at hresult
    exact hresult

namespace Histogram

def fourCounts : SampleVector where
  counts := [1, 0, 2, 0]
  bucketRanges := fourBuckets
  sum := 9

-- Two buckets of another table, `[3, 7)` is one of the four.
def twoCounts : SampleVector where
  counts := [0, 4]
  bucketRanges := ⟨[2, 3, 7], by decide⟩
  sum := 20

theorem fourCounts_wellFormed : fourCounts.WellFormed where
  length := rfl
  increasing := ⟨fourBuckets_valid.increasing⟩
  pos := by decide
  count := by decide
  sum := by decide

theorem twoCounts_wellFormed : twoCounts.WellFormed where
  length := rfl
  increasing := ⟨by decide⟩
  pos := by decide
  count := by decide
  sum := by decide

theorem mergesExactly_twoCounts
    : SampleVector.MergesExactly fourCounts twoCounts ∧
      snapshotSampleVector ⟨fourBuckets, fourCounts⟩ = .ok fourCounts :=
  SampleVector.mergesExactly (h := ⟨fourBuckets, fourCounts⟩) fourCounts_wellFormed
    twoCounts_wellFormed fourCounts_wellFormed rfl

theorem Records.wellFormed {ranges : BucketRanges} {values : List Int} {h : Histogram}
    (hvalid : ranges.Valid) (hrecords : Records ranges values h) : h.samples.WellFormed where
  length := by rw [hrecords.length, hrecords.samplesRanges]
  increasing := by
    rw [hrecords.samplesRanges]
    exact ⟨hvalid.increasing⟩
  pos := by
    rw [hrecords.length]
    exact hvalid.bucketCount_pos
  count := by
    intro c hc
    have ⟨i, hi, heq⟩ := List.mem_iff_getElem.mp hc
    have hcount := hrecords.count i (by rw [← hrecords.length]; exact hi)
    rw [List.getD_eq_getElem?_getD, List.getElem?_eq_getElem hi, heq, Option.getD_some] at hcount
    rw [hcount]
    apply int32_range
  sum := by
    rw [hrecords.sum]
    apply int64_range

theorem covers_self (samples : SampleVector)
    : SampleVector.Covers samples samples 0 := by
  intro j _ hj _
  exact ⟨j, hj, hj, rfl, rfl⟩

theorem sum_wraps_of_add
    : ∃ h result, (create fourBuckets >>= (addAll · (List.replicate (2 ^ 32) (kSampleTypeMax - 1))))
          = .ok h
        ∧ h.samples.add h.samples = .ok result
        ∧ result.sum ≠ h.samples.sum + h.samples.sum := by
  have ⟨h, hh, hrecords⟩ := create_records fourBuckets_valid
  have ⟨h', hh', hrecords'⟩ := addAll_records fourBuckets_valid hrecords
    (List.replicate (2 ^ 32) (kSampleTypeMax - 1))
  have hwell := hrecords'.wellFormed fourBuckets_valid
  have ⟨result, hresult, hchanged⟩ :=
    SampleVector.exists_of_covers .add hwell hwell (covers_self h'.samples)
  refine ⟨h', result, ?_, hresult, ?_⟩
  . rw [hh]
    exact hh'
  . have hclamp : clamp (kSampleTypeMax - 1) = 2147483646 := by decide
    have hsum := hrecords'.sum
    rw [List.nil_append, List.map_replicate, hclamp, List.sum_replicate] at hsum
    rw [hchanged.sum, hsum]
    decide

end Histogram
end Claire
