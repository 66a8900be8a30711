import ClaireCommon.Metrics.DisplayRows
import ClaireCommon.Metrics.Impl.WriteAscii
import ClaireCommon.Metrics.Lemmas.WriteJSON

/-!
This module proves that the display of a histogram shows every bucket that is not empty.
-/

namespace Claire

open Floating Traced

def Doubles.Compares {F : Type} (doubles : Doubles F) (val : F → Option ℝ) : Prop :=
  ∀ x y a b, val x = some a → val y = some b → (doubles.lt x y = true ↔ a < b)

namespace DeclaredHistogram

-- What holds of every histogram with at least two buckets, unless a count has wrapped around
structure Displayable (h : DeclaredHistogram) : Prop where
  increasing : h.bucketRanges.Increasing
  first : 0 ≤ h.ranges 0
  last : h.ranges h.bucketCount ≤ intMax
  ownRanges : h.samples.bucketRanges = h.bucketRanges
  length : h.samples.counts.length = h.bucketCount
  two_le : 2 ≤ h.bucketCount
  nonneg : ∀ c ∈ h.samples.counts, 0 ≤ c
  total : h.samples.counts.sum ≤ intMax
  sum : -2 ^ 63 ≤ h.samples.sum ∧ h.samples.sum < 2 ^ 63

variable {F : Type} {doubles : Doubles F} {val : F → Option ℝ} {h : DeclaredHistogram}

def countsBefore (h : DeclaredHistogram) (i : Nat) : Int := (h.samples.counts.take i).sum

def total (h : DeclaredHistogram) : Int := h.samples.counts.sum

theorem countsBefore_succ (hh : h.Displayable) {i : Nat} (hi : i < h.bucketCount)
    : h.countsBefore (i + 1) = h.countsBefore i + h.samples.count i := by
  have hi' : i < h.samples.counts.length := by
    rw [hh.length]
    exact hi
  unfold countsBefore SampleVector.count
  rw [List.take_succ_eq_append_getElem hi', List.sum_append, List.getD_eq_getElem?_getD,
    List.getElem?_eq_getElem hi']
  simp

theorem count_nonneg (hh : h.Displayable) (i : Nat) : 0 ≤ h.samples.count i := by
  unfold SampleVector.count
  rw [List.getD_eq_getElem?_getD]
  cases hi : h.samples.counts[i]? with
  | none => apply Int.le_refl
  | some c => exact hh.nonneg c (List.mem_of_getElem? hi)

theorem countsBefore_range (hh : h.Displayable) (i : Nat)
    : 0 ≤ h.countsBefore i ∧ h.countsBefore i ≤ h.total := by
  have hsplit := List.sum_take_add_sum_drop h.samples.counts i
  have htake : 0 ≤ (h.samples.counts.take i).sum := by
    apply List.sum_nonneg
    intro c hc
    apply hh.nonneg c (List.mem_of_mem_take hc)
  have hdrop : 0 ≤ (h.samples.counts.drop i).sum := by
    apply List.sum_nonneg
    intro c hc
    apply hh.nonneg c (List.mem_of_mem_drop hc)
  unfold countsBefore total
  omega

theorem countsBefore_bucketCount (hh : h.Displayable) : h.countsBefore h.bucketCount = h.total := by
  unfold countsBefore
  rw [← hh.length, List.take_length]
  rfl

theorem count_le_total (hh : h.Displayable) {i : Nat} (hi : i < h.bucketCount)
    : h.samples.count i ≤ h.total := by
  have := countsBefore_succ hh hi
  have := (countsBefore_range hh i).1
  have := (countsBefore_range hh (i + 1)).2
  omega

theorem countsBefore_of_empty (hh : h.Displayable) {i skipped : Nat}
    (hlt : i + skipped < h.bucketCount)
    (hempty : ∀ j, i ≤ j → j ≤ i + skipped → h.samples.count j = 0)
    : h.countsBefore (i + skipped + 1) = h.countsBefore i := by
  induction skipped with
  | zero =>
    rw [Nat.add_zero, countsBefore_succ hh (by omega), hempty i (Nat.le_refl i) (Nat.le_refl i),
      Int.add_zero]
  | succ skipped ih =>
    rw [countsBefore_succ hh hlt, hempty (i + (skipped + 1)) (by omega) (Nat.le_refl _), Int.add_zero,
      ← Nat.add_assoc]
    apply ih (by omega)
    intro j hj hle
    apply hempty j hj (by omega)

theorem exists_count_ne_zero (hh : h.Displayable) (htotal : h.total ≠ 0)
    : ∃ j < h.bucketCount, h.samples.count j ≠ 0 := by
  apply Classical.byContradiction
  intro hnone
  apply htotal
  rw [← countsBefore_bucketCount hh]
  have hzero : ∀ i, i ≤ h.bucketCount → h.countsBefore i = 0 := by
    intro i
    induction i with
    | zero =>
      intro _
      rfl
    | succ i ih =>
      intro hle
      have hcount : h.samples.count i = 0 := by
        apply Classical.byContradiction
        intro hne
        apply hnone
        exact ⟨i, hle, hne⟩
      rw [countsBefore_succ hh hle, ih (by omega), hcount]
      rfl
  apply hzero _ (Nat.le_refl _)

theorem Displayable.wellFormed (hh : h.Displayable) : h.samples.WellFormed := by
  have hlength := hh.length
  have htwo := hh.two_le
  refine ⟨⟨?_, ?_⟩, by omega, ?_, hh.sum⟩
  . rw [hh.length, hh.ownRanges]
    rfl
  . rw [hh.ownRanges]
    exact hh.increasing
  . intro c hc
    have hnonneg := hh.nonneg c hc
    have hle := List.single_le_sum hh.nonneg c hc
    have htotal := hh.total
    unfold intMax at htotal
    omega

theorem countAt_eq (hh : h.Displayable) {i : Nat} (hi : i < h.bucketCount)
    : countAt (F := F) h.samples i = pure (h.samples.count i) := by
  unfold countAt SampleVector.getCountAtIndex
  rw [hh.length, decide_eq_true hi]
  rfl

theorem dcheck_eq {failure : CheckFailure} {condition : Bool} (h : condition = true)
    : dcheck (F := F) failure condition = pure () := by
  rw [h]
  rfl

def bucketSize (doubles : Doubles F) (h : DeclaredHistogram) (i : Nat) : F :=
  let denominator := doubles.ofInt (int32 (h.ranges (i + 1) - h.ranges i))
  doubles.div (doubles.ofInt (h.samples.count i))
    (if doubles.lt (doubles.ofInt 5) denominator then doubles.ofInt 5 else denominator)

theorem getBucketSize_eq (hh : h.Displayable) {i : Nat} (hi : i < h.bucketCount)
    : getBucketSize doubles h (h.samples.count i) i = pure (bucketSize doubles h i) := by
  have hlt : h.ranges i < h.ranges (i + 1) := hh.increasing.lt i hi
  unfold getBucketSize
  rw [dcheck_eq (decide_eq_true hlt)]
  rfl

theorem width_range (hh : h.Displayable) {i : Nat} (hi : i < h.bucketCount)
    : 1 ≤ h.ranges (i + 1) - h.ranges i ∧ h.ranges (i + 1) - h.ranges i ≤ intMax := by
  have hlt : h.ranges i < h.ranges (i + 1) := hh.increasing.lt i hi
  have hfirst : h.ranges 0 ≤ h.ranges i := hh.increasing.range_le (Nat.zero_le i) (Nat.le_of_lt hi)
  have hlast : h.ranges (i + 1) ≤ h.ranges h.bucketCount := hh.increasing.range_le hi (Nat.le_refl _)
  have := hh.first
  have := hh.last
  omega

theorem bucketSize_val (hm : Accurate doubles.toFloating val) (hc : doubles.Compares val)
    (hh : h.Displayable) {i : Nat} (hi : i < h.bucketCount)
    : ∃ r, val (bucketSize doubles h i) = some r ∧ (h.samples.count i ≠ 0 → 0 < r) := by
  have ⟨hwidth, hwidth'⟩ := width_range hh hi
  have hmax : intMax < 2 ^ 31 := by decide
  have hcount := count_nonneg hh i
  have hcount' := count_le_total hh hi
  have htotal := hh.total
  unfold total at hcount'
  have hden : ∃ d : ℝ, 1 ≤ d ∧ d ≤ 5 ∧ val (
      if doubles.lt (doubles.ofInt 5) (doubles.ofInt (int32 (h.ranges (i + 1) - h.ranges i))) then
        doubles.ofInt 5
      else
        doubles.ofInt (int32 (h.ranges (i + 1) - h.ranges i))) = some d := by
    have hfive : val (doubles.ofInt 5) = some ((5 : Int) : ℝ) := val_ofInt hm (by omega) (by omega)
    rw [int32_of_range (by omega) (by omega)]
    have hval := @val_ofInt F doubles.toFloating val hm (h.ranges (i + 1) - h.ranges i) (by omega)
      (by omega)
    have hlt := hc _ _ _ _ hfive hval
    split
    . exact ⟨5, by norm_num, by norm_num, by rw [hfive]; norm_num⟩
    . next hnot =>
      rw [hlt, not_lt] at hnot
      exact ⟨_, by exact_mod_cast hwidth, by exact_mod_cast hnot, hval⟩
  have ⟨d, hone, hfive, hd⟩ := hden
  have hc := @val_ofInt F doubles.toFloating val hm (h.samples.count i) hcount (by omega)
  have hnonneg : (0 : ℝ) ≤ h.samples.count i := by exact_mod_cast hcount
  have hquotient : 0 ≤ (h.samples.count i : ℝ) / d := div_nonneg hnonneg (by linarith)
  have hsmall : (h.samples.count i : ℝ) / d ≤ 2 ^ 64 := by
    have hle : (h.samples.count i : ℝ) ≤ 2 ^ 31 := by
      have : h.samples.count i ≤ 2 ^ 31 := by omega
      exact_mod_cast this
    have := div_le_self hnonneg hone
    linarith
  have ⟨r, hr, herror⟩ := hm.div _ _ _ _ hc hd (by linarith) (by
    rw [abs_of_nonneg hquotient]
    exact hsmall)
  refine ⟨r, hr, ?_⟩
  intro hne
  have hge : (1 : ℝ) ≤ h.samples.count i := by
    have : 1 ≤ h.samples.count i := by omega
    exact_mod_cast this
  have hfifth : 1 / 5 ≤ (h.samples.count i : ℝ) / d := by
    rw [div_le_div_iff₀ (by norm_num) (by linarith)]
    linarith
  rw [abs_of_nonneg hquotient, abs_le] at herror
  unfold roundoff at herror
  linarith [herror.1]

def peak (doubles : Doubles F) (h : DeclaredHistogram) : F :=
  (List.range h.bucketCount).foldl
    (fun max i => if doubles.lt max (bucketSize doubles h i) then bucketSize doubles h i else max)
    (doubles.ofInt 0)

theorem getPeakBucketSize_eq (hh : h.Displayable)
    : getPeakBucketSize doubles h h.samples = pure (peak doubles h) := by
  unfold getPeakBucketSize peak
  apply foldlM_of_pure
  intro max i hi
  rw [List.mem_range] at hi
  unfold greaterSize
  rw [countAt_eq hh hi, pure_bind, getBucketSize_eq hh hi, pure_bind]

theorem foldl_max_val (hc : doubles.Compares val) {sizes : List F}
    (hsizes : ∀ x ∈ sizes, ∃ r, val x = some r) {start : F} {a : ℝ} (hstart : val start = some a)
    : ∃ m, val (sizes.foldl (fun max x => if doubles.lt max x then x else max) start) = some m ∧
        a ≤ m ∧ ∀ x ∈ sizes, ∀ r, val x = some r → r ≤ m := by
  induction sizes generalizing start a with
  | nil => exact ⟨a, hstart, le_refl a, by simp⟩
  | cons x sizes ih =>
    rw [List.forall_mem_cons] at hsizes
    have ⟨r, hr⟩ := hsizes.1
    have hlt := hc _ _ _ _ hstart hr
    rw [List.foldl_cons]
    split
    . next hless =>
      rw [hlt] at hless
      have ⟨m, hm, hle, hall⟩ := ih hsizes.2 hr
      refine ⟨m, hm, by linarith, ?_⟩
      rw [List.forall_mem_cons]
      apply And.intro _ hall
      intro r' hr'
      rw [hr] at hr'
      injection hr' with hr'
      linarith
    . next hnot =>
      rw [hlt, not_lt] at hnot
      have ⟨m, hm, hle, hall⟩ := ih hsizes.2 hstart
      refine ⟨m, hm, hle, ?_⟩
      rw [List.forall_mem_cons]
      apply And.intro _ hall
      intro r' hr'
      rw [hr] at hr'
      injection hr' with hr'
      linarith

theorem peak_val (hm : Accurate doubles.toFloating val) (hc : doubles.Compares val)
    (hh : h.Displayable) {i : Nat} (hi : i < h.bucketCount)
    : ∃ r m, val (bucketSize doubles h i) = some r ∧ val (peak doubles h) = some m ∧ r ≤ m ∧
        (h.total ≠ 0 → 0 < m) := by
  have hsizes : ∀ x ∈ (List.range h.bucketCount).map (bucketSize doubles h), ∃ r, val x = some r := by
    intro x hx
    have ⟨j, hj, heq⟩ := List.mem_map.mp hx
    rw [List.mem_range] at hj
    have ⟨r, hr, _⟩ := bucketSize_val hm hc hh hj
    exact ⟨r, by rw [← heq, hr]⟩
  have hzero : val (doubles.ofInt 0) = some ((0 : Int) : ℝ) := val_ofInt hm (by omega) (by omega)
  have ⟨m, hpeak, _, hall⟩ := foldl_max_val hc hsizes hzero
  rw [List.foldl_map] at hpeak
  have hle {j : Nat} (hj : j < h.bucketCount) {r : ℝ} (hr : val (bucketSize doubles h j) = some r)
      : r ≤ m :=
    hall _ (List.mem_map_of_mem (List.mem_range.mpr hj)) r hr
  have ⟨r, hr, _⟩ := bucketSize_val hm hc hh hi
  refine ⟨r, m, hr, hpeak, hle hi hr, ?_⟩
  intro htotal
  have ⟨j, hj, hcount⟩ := exists_count_ne_zero hh htotal
  have ⟨r', hr', hpos⟩ := bucketSize_val hm hc hh hj
  have := hpos hcount
  have := hle hj hr'
  linarith

theorem largestNonEmptyBucket_eq (hh : h.Displayable) {i : Nat} (hi : i < h.bucketCount)
    : ∃ k, largestNonEmptyBucket (F := F) h.samples i = pure k := by
  induction i with
  | zero =>
    unfold largestNonEmptyBucket
    rw [countAt_eq hh hi]
    exact ⟨0, rfl⟩
  | succ i ih =>
    unfold largestNonEmptyBucket
    rw [countAt_eq hh hi, pure_bind]
    split
    . apply ih
      omega
    . exact ⟨i + 1, rfl⟩

theorem widenPrint_eq (hh : h.Displayable)
    : ∃ width, (List.range h.bucketCount).foldlM (widenPrint (F := F) h h.samples) 1 = pure width := by
  refine ⟨(List.range h.bucketCount).foldl (fun printWidth i =>
    if h.samples.count i ≠ 0 ∧ (h.getAsciiBucketRange i).length + 1 > printWidth then
      (h.getAsciiBucketRange i).length + 1
    else
      printWidth) 1, ?_⟩
  apply foldlM_of_pure
  intro printWidth i hi
  rw [List.mem_range] at hi
  unfold widenPrint
  rw [countAt_eq hh hi, pure_bind]
  by_cases hcount : h.samples.count i = 0
  . simp [hcount]
  . by_cases hwidth : (h.getAsciiBucketRange i).length + 1 > printWidth
    . simp [hcount, hwidth]
    . simp [hcount, hwidth]

def headerText (doubles : Doubles F) (h : DeclaredHistogram) : List UInt8 :=
  key "Histogram: " ++ cString h.histogramName ++ key " recorded " ++ decimal h.total ++ key " samples" ++
    if h.total = 0 then
      []
    else
      key ", average = " ++ doubles.format 0
        (doubles.div (doubles.ofInt h.samples.sum) (doubles.ofInt h.total))

theorem writeAsciiHeader_eq (hsum : h.total = 0 → h.samples.sum = 0) (output : List UInt8)
    : writeAsciiHeader doubles h h.samples h.total output
        = pure (output ++ headerText doubles h) := by
  unfold writeAsciiHeader headerText
  by_cases htotal : h.total = 0
  . rw [if_pos htotal, if_pos htotal, dcheck_eq (decide_eq_true (hsum htotal)), pure_bind]
    simp
  . rw [if_neg htotal, if_neg htotal]
    simp

theorem emptyBehind_eq (hh : h.Displayable) {i : Nat}
    : emptyBehind (F := F) h h.samples i
        = pure (decide (i + 1 < h.bucketCount ∧ h.samples.count (i + 1) = 0)) := by
  unfold emptyBehind
  by_cases hlt : i + 1 < h.bucketCount
  . rw [if_pos (by omega), countAt_eq hh hlt, pure_bind]
    simp [hlt]
  . rw [if_neg (by omega)]
    simp [hlt]

theorem skipEmptyBehind_eq (hh : h.Displayable) {i : Nat} (hi : i < h.bucketCount)
    : ∃ skipped, skipEmptyBehind (F := F) h h.samples i = pure skipped ∧
        i + skipped < h.bucketCount ∧
        (∀ j, i < j → j ≤ i + skipped → h.samples.count j = 0) ∧
        (i + skipped + 1 < h.bucketCount → h.samples.count (i + skipped + 1) ≠ 0) := by
  unfold skipEmptyBehind
  rw [if_pos hi, emptyBehind_eq hh, pure_bind]
  by_cases hnext : i + 1 < h.bucketCount ∧ h.samples.count (i + 1) = 0
  . have ⟨skipped, heq, hlt, hempty, hend⟩ := skipEmptyBehind_eq hh hnext.1
    rw [if_pos (decide_eq_true hnext), heq, pure_bind]
    refine ⟨skipped + 1, rfl, by omega, ?_, ?_⟩
    . intro j hj hle
      by_cases heq : j = i + 1
      . rw [heq]
        exact hnext.2
      . apply hempty j (by omega) (by omega)
    . have hindex : i + (skipped + 1) + 1 = i + 1 + skipped + 1 := by omega
      rw [hindex]
      exact hend
  . rw [if_neg (by simpa using hnext)]
    refine ⟨0, rfl, hi, by omega, ?_⟩
    intro hlt hzero
    apply hnext ⟨hlt, hzero⟩
termination_by h.bucketCount - i

def rangeText (h : DeclaredHistogram) (printWidth i : Nat) : List UInt8 :=
  h.writeAsciiBucketRange i printWidth []

def graphText (doubles : Doubles F) (currentSize maxSize : F) : List UInt8 :=
  let xCount := doubles.toInt (doubles.add
    (doubles.mul (doubles.ofInt 72) (doubles.div currentSize maxSize)) doubles.half)
  List.replicate xCount.toNat (byteOf '-') ++ key "O"
    ++ List.replicate (int32 (72 - xCount)).toNat (byteOf ' ')

def contextText (doubles : Doubles F) (past current remaining : Int) (i : Nat) : List UInt8 :=
  let scaledSum := doubles.div
    (doubles.ofInt (int64 (int64 (past + current) + remaining))) (doubles.ofInt 100)
  writeAsciiBucketValue doubles current scaledSum []
    ++ if 0 < i then
      key " \x7b" ++ doubles.format 3 (doubles.div (doubles.ofInt past) scaledSum) ++ key "%\x7d"
    else
      []

section Rows

variable (doubles) (h) (graphIt : Bool) (newline : List UInt8) (maxSize : F) (printWidth : Nat)

def remainingBehind (i : Nat) : Int := h.total - h.countsBefore (i + 1)

def rowText : DisplayRow → List UInt8
  | .bucket i =>
    h.rangeText printWidth i
      ++ (if graphIt then graphText doubles (bucketSize doubles h i) maxSize else [])
      ++ contextText doubles (h.countsBefore i) (h.samples.count i) (h.remainingBehind i) i ++ newline
  | .run i _ => h.rangeText printWidth i ++ key "... " ++ newline

def rowCalls : DisplayRow → List (DisplayCall F)
  | .bucket i =>
    (if graphIt then [.graph (bucketSize doubles h i) maxSize] else [])
      ++ [.context (h.countsBefore i) (h.samples.count i) (h.remainingBehind i) i]
  | .run _ _ => []

end Rows

theorem writeAsciiBucketGraph_eq (currentSize maxSize : F) (output : List UInt8)
    : writeAsciiBucketGraph doubles currentSize maxSize output
        = ⟨.ok (output ++ graphText doubles currentSize maxSize), [.graph currentSize maxSize]⟩ := by
  unfold writeAsciiBucketGraph graphText
  simp [emit, bind]

theorem writeAsciiBucketContext_eq (past current remaining : Int) (i : Nat) (output : List UInt8)
    : writeAsciiBucketContext doubles past current remaining i output
        = ⟨.ok (output ++ contextText doubles past current remaining i),
            [.context past current remaining i]⟩ := by
  unfold writeAsciiBucketContext contextText writeAsciiBucketValue
  by_cases hi : 0 < i
  . simp [emit, bind, hi]
  . simp [emit, bind, hi]

theorem writeAsciiBucket_eq (hh : h.Displayable) (graphIt : Bool) (maxSize : F)
    (past remaining : Int) {i : Nat} (hi : i < h.bucketCount) (output : List UInt8)
    : writeAsciiBucket doubles h graphIt maxSize past (h.samples.count i) remaining i output
        = ⟨.ok (output
            ++ (if graphIt then graphText doubles (bucketSize doubles h i) maxSize else [])
            ++ contextText doubles past (h.samples.count i) remaining i),
          (if graphIt then [DisplayCall.graph (bucketSize doubles h i) maxSize] else [])
            ++ [DisplayCall.context past (h.samples.count i) remaining i]⟩ := by
  unfold writeAsciiBucket
  rw [getBucketSize_eq hh hi, pure_bind]
  cases graphIt with
  | true => simp [writeAsciiBucketGraph_eq, writeAsciiBucketContext_eq, bind]
  | false => simp [writeAsciiBucketContext_eq]

theorem beginsRun_eq (hh : h.Displayable) {i : Nat}
    : beginsRun (F := F) h h.samples (h.samples.count i) i = pure (decide (h.samples.count i = 0 ∧
        i + 1 < h.bucketCount ∧ h.samples.count (i + 1) = 0)) := by
  unfold beginsRun
  by_cases hcount : h.samples.count i = 0
  . rw [if_pos hcount, emptyBehind_eq hh]
    simp [hcount]
  . rw [if_neg hcount]
    simp [hcount]

theorem remaining_eq (hh : h.Displayable) {i : Nat} (hi : i < h.bucketCount)
    : int64 (h.total - h.countsBefore i - h.samples.count i) = h.remainingBehind i := by
  have hsucc := countsBefore_succ hh hi
  have hrange := countsBefore_range hh (i + 1)
  have htotal : h.total ≤ intMax := hh.total
  unfold intMax at htotal
  unfold remainingBehind
  rw [int64_of_range (by omega) (by omega)]
  omega

theorem past_eq (hh : h.Displayable) {i : Nat} (hi : i < h.bucketCount)
    : int64 (h.countsBefore i + h.samples.count i) = h.countsBefore (i + 1) := by
  have hsucc := countsBefore_succ hh hi
  have hrange := countsBefore_range hh (i + 1)
  have htotal : h.total ≤ intMax := hh.total
  unfold intMax at htotal
  rw [int64_of_range (by omega) (by omega)]
  omega

section Loop

variable {graphIt : Bool} {newline output : List UInt8} {maxSize : F} {printWidth i : Nat}
  {past remaining : Int}

theorem writeAsciiBuckets_of_run (hh : h.Displayable) (hi : i < h.bucketCount)
    (hrun : h.samples.count i = 0 ∧ i + 1 < h.bucketCount ∧ h.samples.count (i + 1) = 0)
    {skipped : Nat} (hskip : skipEmptyBehind (F := F) h h.samples i = pure skipped)
    : writeAsciiBuckets doubles h graphIt newline h.samples h.total maxSize printWidth i past remaining
          output
        = writeAsciiBuckets doubles h graphIt newline h.samples h.total maxSize printWidth
            (i + skipped + 1) past (int64 (remaining - h.samples.count i))
            (output ++ h.rangeText printWidth i ++ key "... " ++ newline) := by
  have hprint : ¬(h.samples.count i = 0 ∧ (!printEmptyBucket i) = true) := by
    simp [printEmptyBucket]
  conv => lhs; unfold writeAsciiBuckets
  rw [if_pos hi, countAt_eq hh hi, pure_bind, if_neg hprint]
  dsimp only
  rw [beginsRun_eq hh, pure_bind, if_pos (decide_eq_true hrun), hskip, pure_bind]
  simp [rangeText, writeAsciiBucketRange]

theorem writeAsciiBuckets_of_bucket (hh : h.Displayable) (hi : i < h.bucketCount)
    (hrun : ¬(h.samples.count i = 0 ∧ i + 1 < h.bucketCount ∧ h.samples.count (i + 1) = 0))
    : writeAsciiBuckets doubles h graphIt newline h.samples h.total maxSize printWidth i past remaining
          output
        = writeAsciiBucket doubles h graphIt maxSize past (h.samples.count i)
            (int64 (remaining - h.samples.count i)) i (output ++ h.rangeText printWidth i) >>=
          fun output => writeAsciiBuckets doubles h graphIt newline h.samples h.total maxSize printWidth
            (i + 1) (int64 (past + h.samples.count i)) (int64 (remaining - h.samples.count i))
            (output ++ newline) := by
  have hprint : ¬(h.samples.count i = 0 ∧ (!printEmptyBucket i) = true) := by
    simp [printEmptyBucket]
  conv => lhs; unfold writeAsciiBuckets
  rw [if_pos hi, countAt_eq hh hi, pure_bind, if_neg hprint]
  dsimp only
  rw [beginsRun_eq hh, pure_bind, if_neg (by simpa using hrun)]
  simp [rangeText, writeAsciiBucketRange]

end Loop

theorem writeAsciiBuckets_eq (doubles : Doubles F) (hh : h.Displayable) (graphIt : Bool)
    (newline : List UInt8) (maxSize : F) (printWidth : Nat) {i : Nat} (hi : i ≤ h.bucketCount)
    (output : List UInt8)
    : ∃ rows, DisplayRow.Cover h.samples.count h.bucketCount i rows ∧
        writeAsciiBuckets doubles h graphIt newline h.samples h.total maxSize printWidth i
            (h.countsBefore i) (h.total - h.countsBefore i) output
          = ⟨.ok (output ++ rows.flatMap (rowText doubles h graphIt newline maxSize printWidth)),
              rows.flatMap (rowCalls doubles h graphIt maxSize)⟩ := by
  by_cases hlt : i < h.bucketCount
  . by_cases hrun : h.samples.count i = 0 ∧ i + 1 < h.bucketCount ∧ h.samples.count (i + 1) = 0
    . have ⟨skipped, hskip, hend, hzero, hfull⟩ := skipEmptyBehind_eq (F := F) hh hlt
      have hempty : ∀ j, i ≤ j → j ≤ i + skipped → h.samples.count j = 0 := by
        intro j hj hle
        cases Nat.eq_or_lt_of_le hj with
        | inl heq =>
          rw [← heq]
          exact hrun.1
        | inr hgt => apply hzero j hgt hle
      have hbefore := countsBefore_of_empty hh hend hempty
      have ⟨rows, hcover, hrows⟩ := writeAsciiBuckets_eq doubles hh graphIt newline maxSize printWidth
        (i := i + skipped + 1) hend
        (output ++ h.rangeText printWidth i ++ key "... " ++ newline)
      refine ⟨.run i skipped :: rows, .run hend hempty hfull hcover, ?_⟩
      rw [writeAsciiBuckets_of_run hh hlt hrun hskip, remaining_eq hh hlt, remainingBehind,
        countsBefore_succ hh hlt, hrun.1, Int.add_zero, ← hbefore, hrows]
      simp [rowText, rowCalls]
    . have ⟨rows, hcover, hrows⟩ := writeAsciiBuckets_eq doubles hh graphIt newline maxSize printWidth
        (i := i + 1) hlt (output ++ h.rangeText printWidth i
          ++ (if graphIt then graphText doubles (bucketSize doubles h i) maxSize else [])
          ++ contextText doubles (h.countsBefore i) (h.samples.count i) (h.remainingBehind i) i
          ++ newline)
      refine ⟨.bucket i :: rows, .bucket hlt ?_ hcover, ?_⟩
      . intro hcount hnext hcount'
        apply hrun ⟨hcount, hnext, hcount'⟩
      . rw [writeAsciiBuckets_of_bucket hh hlt hrun, writeAsciiBucket_eq hh graphIt maxSize _ _ hlt,
          remaining_eq hh hlt, past_eq hh hlt, bind_mk]
        unfold remainingBehind at *
        rw [hrows]
        simp [rowText, rowCalls, remainingBehind]
  . have heq : i = h.bucketCount := by omega
    subst heq
    refine ⟨[], .nil, ?_⟩
    unfold writeAsciiBuckets
    rw [if_neg hlt, dcheck_eq (decide_eq_true (countsBefore_bucketCount hh).symm)]
    simp
    rfl
termination_by h.bucketCount - i

def maxSize (doubles : Doubles F) (h : DeclaredHistogram) (graphIt : Bool) : F :=
  if graphIt then peak doubles h else doubles.ofInt 0

theorem writeAsciiImpl_eq (doubles : Doubles F) (hh : h.Displayable)
    (hsum : h.total = 0 → h.samples.sum = 0) (graphIt : Bool) (newline output : List UInt8)
    : ∃ printWidth rows, DisplayRow.Cover h.samples.count h.bucketCount 0 rows ∧
        writeAsciiImpl doubles h graphIt newline output
          = ⟨.ok (output ++ headerText doubles h ++ newline
                ++ rows.flatMap (rowText doubles h graphIt newline (maxSize doubles h graphIt) printWidth)),
              rows.flatMap (rowCalls doubles h graphIt (maxSize doubles h graphIt))⟩ := by
  have htwo := hh.two_le
  have hnonneg := (countsBefore_range hh h.bucketCount).1
  have htotal : h.total ≤ intMax := hh.total
  rw [countsBefore_bucketCount hh] at hnonneg
  unfold intMax at htotal
  have hsnapshot := Histogram.snapshotSampleVector_eq hh.wellFormed hh.ownRanges
  have hcount : h.samples.totalCount = h.total := by
    rw [SampleVector.totalCount_eq]
    apply int32_of_range
    . unfold total at hnonneg
      omega
    . unfold total at htotal
      omega
  have hpeak : peakBucketSize doubles h h.samples graphIt = pure (maxSize doubles h graphIt) := by
    unfold peakBucketSize maxSize
    cases graphIt with
    | true => exact getPeakBucketSize_eq hh
    | false => rfl
  have ⟨largest, hlargest⟩ := largestNonEmptyBucket_eq (F := F) hh (i := h.bucketCount - 1) (by omega)
  have ⟨printWidth, hwidth⟩ := widenPrint_eq (F := F) hh
  have ⟨rows, hcover, hrows⟩ := writeAsciiBuckets_eq doubles hh graphIt newline
    (maxSize doubles h graphIt) printWidth (Nat.zero_le _) (output ++ headerText doubles h ++ newline)
  have hstart : h.countsBefore 0 = 0 := rfl
  rw [hstart, Int.sub_zero] at hrows
  refine ⟨printWidth, rows, hcover, ?_⟩
  unfold writeAsciiImpl
  have hlift : (ofExcept h.snapshotSampleVector : Display F SampleVector) = pure h.samples := by
    rw [hsnapshot]
    rfl
  rw [hlift, pure_bind]
  dsimp only
  rw [hcount, writeAsciiHeader_eq hsum, pure_bind, hpeak, pure_bind, hlargest, pure_bind, hwidth,
    pure_bind, hrows]

-- Neither call divides by zero. What is left of `past`, `current` and `remaining` is the bucket `i`.
def DividesSafely (h : DeclaredHistogram) (val : F → Option ℝ) : DisplayCall F → Prop
  | .graph currentSize maxSize =>
    ∃ current max, val currentSize = some current ∧ val maxSize = some max ∧ 0 < max ∧ current ≤ max
  | .context past current remaining i =>
    i < h.bucketCount ∧ current = h.samples.count i ∧ past + current + remaining = h.total ∧ 0 < h.total

theorem rowCalls_shown {doubles : Doubles F} {graphIt : Bool} {maxSize : F} {row : DisplayRow}
    {call : DisplayCall F} (hcall : call ∈ rowCalls doubles h graphIt maxSize row)
    : ∃ i ∈ row.shown, (graphIt = true ∧ call = .graph (bucketSize doubles h i) maxSize) ∨
        call = .context (h.countsBefore i) (h.samples.count i) (h.remainingBehind i) i := by
  cases row with
  | run i skipped => contradiction
  | bucket i =>
    refine ⟨i, List.mem_singleton_self i, ?_⟩
    unfold rowCalls at hcall
    rw [List.mem_append, List.mem_singleton] at hcall
    cases hcall with
    | inr hcontext => exact Or.inr hcontext
    | inl hgraph =>
      cases graphIt with
      | true => exact Or.inl ⟨rfl, List.mem_singleton.mp hgraph⟩
      | false => contradiction

theorem total_pos_of_shown (hh : h.Displayable) {rows : List DisplayRow}
    (hcover : DisplayRow.Cover h.samples.count h.bucketCount 0 rows) {i : Nat}
    (hi : i ∈ rows.flatMap DisplayRow.shown) : 0 < h.total := by
  have hnonneg := countsBefore_range hh 0
  apply Classical.byContradiction
  intro hnot
  rw [hcover.shown_eq_nil hh.two_le] at hi
  . contradiction
  . intro j _ hj
    have := count_le_total hh hj
    have := count_nonneg hh j
    omega

theorem rowCalls_divideSafely (hm : Accurate doubles.toFloating val) (hc : doubles.Compares val)
    (hh : h.Displayable) {graphIt : Bool} {rows : List DisplayRow}
    (hcover : DisplayRow.Cover h.samples.count h.bucketCount 0 rows) {call : DisplayCall F}
    (hcall : call ∈ rows.flatMap (rowCalls doubles h graphIt (maxSize doubles h graphIt)))
    : DividesSafely h val call := by
  have ⟨row, hrow, hcall⟩ := List.mem_flatMap.mp hcall
  have ⟨i, hi, hcall⟩ := rowCalls_shown hcall
  have hshown : i ∈ rows.flatMap DisplayRow.shown := List.mem_flatMap_of_mem hrow hi
  have hlt := (hcover.shown_range hshown).2
  have htotal := total_pos_of_shown hh hcover hshown
  cases hcall with
  | inl hgraph =>
    have ⟨r, m, hr, hmax, hle, hpos⟩ := peak_val hm hc hh hlt
    rw [hgraph.2, hgraph.1]
    refine ⟨r, m, hr, hmax, ?_, hle⟩
    apply hpos
    omega
  | inr hcontext =>
    have hsucc := countsBefore_succ hh hlt
    rw [hcontext]
    refine ⟨hlt, rfl, ?_, htotal⟩
    unfold remainingBehind
    omega

theorem writeAsciiImpl_showsAll (hm : Accurate doubles.toFloating val) (hc : doubles.Compares val)
    (hh : h.Displayable) (hsum : h.total = 0 → h.samples.sum = 0) (graphIt : Bool)
    (newline output : List UInt8)
    : ∃ printWidth rows,
        writeAsciiImpl doubles h graphIt newline output
            = ⟨.ok (output ++ headerText doubles h ++ newline ++ rows.flatMap
                  (rowText doubles h graphIt newline (maxSize doubles h graphIt) printWidth)),
                rows.flatMap (rowCalls doubles h graphIt (maxSize doubles h graphIt))⟩ ∧
        DisplayRow.Cover h.samples.count h.bucketCount 0 rows ∧
        (rows.flatMap DisplayRow.shown).Pairwise (· < ·) ∧
        (∀ i < h.bucketCount, h.samples.count i ≠ 0 → i ∈ rows.flatMap DisplayRow.shown) ∧
        ∀ call ∈ (writeAsciiImpl doubles h graphIt newline output).log, DividesSafely h val call := by
  have ⟨printWidth, rows, hcover, heq⟩ := writeAsciiImpl_eq doubles hh hsum graphIt newline
    output
  refine ⟨printWidth, rows, heq, hcover, hcover.shown_increasing, ?_, ?_⟩
  . intro i hi hcount
    exact hcover.mem_shown (Nat.zero_le i) hi hcount
  . intro call hcall
    rw [heq] at hcall
    exact rowCalls_divideSafely hm hc hh hcover hcall

def fourCounts (counts : List Int) (sum : Int) : DeclaredHistogram where
  bucketRanges := Histogram.fourBuckets
  samples := ⟨counts, Histogram.fourBuckets, sum⟩
  histogramName := key "four"
  declaredMin := 1
  declaredMax := 7

theorem displayable_fourCounts {counts : List Int} {sum : Int} (hlength : counts.length = 4)
    (hnonneg : ∀ c ∈ counts, 0 ≤ c) (htotal : counts.sum ≤ intMax)
    (hsum : -2 ^ 63 ≤ sum ∧ sum < 2 ^ 63) : (fourCounts counts sum).Displayable where
  increasing := ⟨Histogram.fourBuckets_valid.increasing⟩
  first := Int.le_refl 0
  last := Int.le_refl intMax
  ownRanges := rfl
  length := hlength
  two_le := (by decide : 2 ≤ Histogram.fourBuckets.bucketCount)
  nonneg := hnonneg
  total := htotal
  sum := hsum

-- Samples from which others were subtracted: their counts cancel, their sums do not.
def cancelledSamples : Except CheckFailure SampleVector := do
  let samples ← SampleVector.create Histogram.fourBuckets
  let samples ← samples.accumulate 4 1
  let others ← SampleVector.create Histogram.fourBuckets
  let others ← others.accumulate 3 1
  samples.subtract others

deriving instance DecidableEq for BucketRanges, SampleVector

theorem add_cancelledSamples
    : (do (← SampleVector.create Histogram.fourBuckets).add (← cancelledSamples))
        = .ok (fourCounts [0, 0, 0, 0] 1).samples := by
  decide +kernel

theorem not_showsAll_cancelled
    : (fourCounts [0, 0, 0, 0] 1).Displayable ∧
        (do (← SampleVector.create Histogram.fourBuckets).add (← cancelledSamples))
          = .ok (fourCounts [0, 0, 0, 0] 1).samples ∧
        ∀ (F : Type) (doubles : Doubles F) (graphIt : Bool) (newline output : List UInt8),
          (writeAsciiImpl doubles (fourCounts [0, 0, 0, 0] 1) graphIt newline output).result
            = .error .sumEqZero := by
  have hh : (fourCounts [0, 0, 0, 0] 1).Displayable :=
    displayable_fourCounts rfl (by decide) (by decide) (by decide)
  refine ⟨hh, add_cancelledSamples, ?_⟩
  intro F doubles graphIt newline output
  unfold writeAsciiImpl
  rw [Histogram.snapshotSampleVector_eq hh.wellFormed hh.ownRanges]
  rfl

noncomputable def exactDoubles : Doubles ℝ where
  toFloating := exact
  mul x y := x * y
  lt x y :=
    haveI := Classical.propDecidable (x < y)
    decide (x < y)
  format width x :=
    let text := decimal (round (x * 10) / 10) ++ key "." ++ decimal (round (x * 10) % 10)
    List.replicate (width - text.length) (byteOf ' ') ++ text

theorem compares_exactDoubles : exactDoubles.Compares some := by
  intro x y a b hx hy
  injection hx with hx
  injection hy with hy
  rw [← hx, ← hy]
  unfold exactDoubles
  simp

def secondHalf : DeclaredHistogram := fourCounts [0, 0, 2, 1] 15

theorem showsAll_secondHalf
    : ∃ printWidth rows,
        writeAsciiImpl exactDoubles secondHalf true (key "\n") []
            = ⟨.ok (headerText exactDoubles secondHalf ++ key "\n" ++ rows.flatMap
                  (rowText exactDoubles secondHalf true (key "\n")
                    (maxSize exactDoubles secondHalf true) printWidth)),
                rows.flatMap
                  (rowCalls exactDoubles secondHalf true (maxSize exactDoubles secondHalf true))⟩ ∧
        DisplayRow.Cover secondHalf.samples.count secondHalf.bucketCount 0 rows ∧
        (rows.flatMap DisplayRow.shown).Pairwise (· < ·) ∧
        (∀ i < secondHalf.bucketCount, secondHalf.samples.count i ≠ 0 →
          i ∈ rows.flatMap DisplayRow.shown) ∧
        ∀ call ∈ (writeAsciiImpl exactDoubles secondHalf true (key "\n") []).log,
          DividesSafely secondHalf some call :=
  writeAsciiImpl_showsAll accurate_exact compares_exactDoubles
    (displayable_fourCounts rfl (by decide) (by decide) (by decide))
    (fun h => absurd h (by decide)) true (key "\n") []

end DeclaredHistogram
end Claire
