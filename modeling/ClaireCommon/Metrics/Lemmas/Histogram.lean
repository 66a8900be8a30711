import Mathlib.Algebra.BigOperators.Group.List.Basic
import ClaireCommon.Metrics.Impl.Histogram

namespace Claire

structure BucketRanges.Valid (r : BucketRanges) : Prop where
  increasing : ∀ i, i < r.bucketCount → r.range i < r.range (i + 1)
  first : r.range 0 = 0
  last : r.range r.bucketCount = Histogram.kSampleTypeMax

theorem BucketRanges.Valid.bucketCount_pos {r : BucketRanges} (h : r.Valid) : 0 < r.bucketCount := by
  apply Nat.pos_of_ne_zero
  intro hzero
  have hlast := h.last
  rw [hzero, h.first] at hlast
  contradiction

structure BucketRanges.Increasing (r : BucketRanges) : Prop where
  lt : ∀ i, i < r.bucketCount → r.range i < r.range (i + 1)

theorem BucketRanges.Increasing.range_lt {r : BucketRanges} (h : r.Increasing) {i j : Nat}
    (hij : i < j) (hj : j ≤ r.bucketCount) : r.range i < r.range j := by
  induction hij with
  | refl => exact h.lt i hj
  | @step m hle ih =>
    have hprevious := ih (Nat.le_of_lt hj)
    have hnext : r.range m < r.range m.succ := h.lt m hj
    omega

theorem BucketRanges.Increasing.range_inj {r : BucketRanges} (h : r.Increasing) {i j : Nat}
    (hi : i ≤ r.bucketCount) (hj : j ≤ r.bucketCount) (heq : r.range i = r.range j) : i = j := by
  by_contra hne
  cases Nat.lt_or_gt_of_ne hne with
  | inl hlt =>
    have := h.range_lt hlt hj
    omega
  | inr hgt =>
    have := h.range_lt hgt hi
    omega

theorem BucketRanges.Increasing.range_le {r : BucketRanges} (h : r.Increasing) {i j : Nat}
    (hij : i ≤ j) (hj : j ≤ r.bucketCount) : r.range i ≤ r.range j := by
  cases Nat.eq_or_lt_of_le hij with
  | inl heq => exact Int.le_of_eq (congrArg r.range heq)
  | inr hlt => exact Int.le_of_lt (h.range_lt hlt hj)

theorem BucketRanges.Increasing.bucket_unique {r : BucketRanges} (h : r.Increasing) {i j : Nat}
    {value : Int} (hi : i < r.bucketCount) (hj : j < r.bucketCount) (hlo : r.range i ≤ value)
    (hhi : value < r.range (i + 1)) (hlo' : r.range j ≤ value) (hhi' : value < r.range (j + 1))
    : i = j := by
  by_contra hne
  cases Nat.lt_or_gt_of_ne hne with
  | inl hlt =>
    have hle : r.range (i + 1) ≤ r.range j := h.range_le hlt (by omega)
    omega
  | inr hgt =>
    have hle : r.range (j + 1) ≤ r.range i := h.range_le hgt (by omega)
    omega

@[simp]
theorem check_true (failure : CheckFailure) : check failure true = .ok () := rfl

theorem check_eq_ok {failure : CheckFailure} {condition : Bool} {u : Unit}
    (h : check failure condition = .ok u) : condition = true := by
  unfold check at h
  split at h
  . assumption
  . contradiction

namespace SampleVector

theorem searchBucket_eq_ok {ranges : BucketRanges} {value : Int} {bucketUnder bucketOver : Nat}
    (hlt : bucketUnder < bucketOver) (hunder : ranges.range bucketUnder ≤ value)
    (hover : value < ranges.range bucketOver)
    : ∃ mid, searchBucket ranges value bucketUnder bucketOver = .ok mid
        ∧ mid < bucketOver ∧ ranges.range mid ≤ value ∧ value < ranges.range (mid + 1) := by
  fun_induction searchBucket ranges value bucketUnder bucketOver with
  | case1 bucketUnder bucketOver hback => omega
  | case2 bucketUnder bucketOver hback mid hmid =>
    have hover' : bucketOver = bucketUnder + 1 := by omega
    rw [hover'] at hover
    exact ⟨mid, rfl, by omega, by rw [hmid]; exact hunder, by rw [hmid]; exact hover⟩
  | case3 bucketUnder bucketOver hback mid hmid hle ih =>
    exact ih (by omega) hle hover
  | case4 bucketUnder bucketOver hback mid hmid hgt ih =>
    have ⟨i, hi, hlt', hlo, hhi⟩ := ih (by omega) hunder (by omega)
    exact ⟨i, hi, by omega, hlo, hhi⟩

theorem getBucketIndex_of_range {samples : SampleVector} {value : Int}
    (hpos : 1 ≤ samples.bucketRanges.bucketCount) (hfirst : samples.bucketRanges.range 0 ≤ value)
    (hlast : value < samples.bucketRanges.range samples.bucketRanges.bucketCount)
    : ∃ i, samples.getBucketIndex value = .ok i ∧ i < samples.bucketRanges.bucketCount
        ∧ samples.bucketRanges.range i ≤ value ∧ value < samples.bucketRanges.range (i + 1) := by
  have ⟨i, hi, hlt, hle, hgt⟩ := searchBucket_eq_ok hpos hfirst hlast
  exists i
  constructor
  . simp [getBucketIndex, hpos, hfirst, hlast, hi, hle, hgt, bind, Except.bind, pure, Except.pure]
  . exact ⟨hlt, hle, hgt⟩

end SampleVector

theorem foldl_int32 (counts : List Int) (count : Int)
    : counts.foldl (fun count c => int32 (count + c)) (int32 count) = int32 (count + counts.sum) := by
  induction counts generalizing count with
  | nil => simp
  | cons c counts ih =>
    rw [List.foldl_cons, int32_int32_add, ih, List.sum_cons, Int.add_assoc]

theorem SampleVector.totalCount_eq (samples : SampleVector)
    : samples.totalCount = int32 samples.counts.sum := by
  have hzero : int32 0 = 0 := int32_of_range (by omega) (by omega)
  unfold totalCount
  calc samples.counts.foldl (fun count c => int32 (count + c)) 0
    _ = samples.counts.foldl (fun count c => int32 (count + c)) (int32 0) := by rw [hzero]
    _ = int32 (0 + samples.counts.sum) := foldl_int32 _ _
    _ = int32 samples.counts.sum := by rw [Int.zero_add]

theorem sum_modify (f : Int → Int) {counts : List Int} {i : Nat} (hi : i < counts.length)
    : (counts.modify i f).sum = counts.sum - counts[i] + f counts[i] := by
  induction counts generalizing i with
  | nil => contradiction
  | cons c counts ih =>
    cases i with
    | zero =>
      rw [List.modify_zero_cons, List.sum_cons, List.sum_cons, List.getElem_cons_zero]
      omega
    | succ i =>
      rw [List.modify_succ_cons, List.sum_cons, List.sum_cons, List.getElem_cons_succ,
        ih (Nat.lt_of_succ_lt_succ hi)]
      omega

theorem getD_modify {counts : List Int} {i j : Nat} (f : Int → Int) (hj : j < counts.length)
    : (counts.modify i f).getD j 0 = if i = j then f (counts.getD j 0) else counts.getD j 0 := by
  rw [List.getD_eq_getElem?_getD, List.getD_eq_getElem?_getD, List.getElem?_modify,
    List.getElem?_eq_getElem hj]
  split <;> rfl

theorem SampleVector.accumulate_spec {samples : SampleVector} {value : Int}
    (hincreasing : samples.bucketRanges.Increasing)
    (hlength : samples.counts.length = samples.bucketRanges.bucketCount)
    (hpos : 1 ≤ samples.bucketRanges.bucketCount) (hfirst : samples.bucketRanges.range 0 ≤ value)
    (hlast : value < samples.bucketRanges.range samples.bucketRanges.bucketCount) (count : Int)
    : ∃ counts,
        samples.accumulate value count
          = .ok { samples with counts := counts, sum := int64 (samples.sum + int32 (count * value)) } ∧
        counts.length = samples.counts.length ∧
        (∀ j < samples.bucketRanges.bucketCount, counts.getD j 0 =
          if samples.bucketRanges.range j ≤ value ∧ value < samples.bucketRanges.range (j + 1) then
            int32 (samples.counts.getD j 0 + 1)
          else
            samples.counts.getD j 0) ∧
        int32 counts.sum = int32 (samples.counts.sum + 1) := by
  have ⟨i, hi, hlt, hle, hgt⟩ := getBucketIndex_of_range hpos hfirst hlast
  refine ⟨samples.counts.modify i (fun c => int32 (c + 1)), ?_, List.length_modify _ _ _, ?_, ?_⟩
  . unfold accumulate
    rw [hi]
    rfl
  . intro j hj
    rw [getD_modify _ (by rw [hlength]; exact hj)]
    by_cases hij : i = j
    . rw [← hij, if_pos rfl, if_pos ⟨hle, hgt⟩]
    . rw [if_neg hij, if_neg]
      intro hbucket
      exact hij (hincreasing.bucket_unique hlt hj hle hgt hbucket.1 hbucket.2)
  . rw [sum_modify _ (by rw [hlength]; exact hlt), int32_add_int32]
    congr 1
    omega

namespace Histogram

theorem clamp_range (value : Int) : 0 ≤ clamp value ∧ clamp value < kSampleTypeMax := by
  unfold clamp kSampleTypeMax intMax
  dsimp only
  split
  . omega
  . split <;> omega

def addAll (h : Histogram) (values : List Int) : Except CheckFailure Histogram :=
  values.foldlM add h

def hits (ranges : BucketRanges) (i : Nat) (values : List Int) : Nat :=
  values.countP (fun value => ranges.range i ≤ clamp value ∧ clamp value < ranges.range (i + 1))

structure Records (ranges : BucketRanges) (values : List Int) (h : Histogram) : Prop where
  ownRanges : h.bucketRanges = ranges
  samplesRanges : h.samples.bucketRanges = ranges
  length : h.samples.counts.length = ranges.bucketCount
  count : ∀ i, i < ranges.bucketCount →
    h.samples.counts.getD i 0 = int32 (hits ranges i values)
  total : int32 h.samples.counts.sum = int32 values.length
  sum : h.samples.sum = int64 (values.map clamp).sum

theorem create_records {ranges : BucketRanges} (hvalid : ranges.Valid)
    : ∃ h, create ranges = .ok h ∧ Records ranges [] h := by
  have hpos : ranges.bucketCount ≥ 1 := hvalid.bucketCount_pos
  refine ⟨⟨ranges, ⟨List.replicate ranges.bucketCount 0, ranges, 0⟩⟩, ?_, ?_⟩
  . simp [create, SampleVector.create, hpos, bind, Except.bind, pure, Except.pure]
  . constructor
    . rfl
    . rfl
    . exact List.length_replicate
    . intro i hi
      simp [hits, hi]
      rfl
    . simp
    . rfl

theorem hits_concat (ranges : BucketRanges) (i : Nat) (values : List Int) (value : Int)
    : hits ranges i (values ++ [value])
        =
      if ranges.range i ≤ clamp value ∧ clamp value < ranges.range (i + 1) then
        hits ranges i values + 1
      else
        hits ranges i values := by
  unfold hits
  rw [List.countP_append, List.countP_singleton]
  split <;> simp_all

theorem add_records {ranges : BucketRanges} {values : List Int} {h : Histogram}
    (hvalid : ranges.Valid) (hrecords : Records ranges values h) (value : Int)
    : ∃ h', h.add value = .ok h' ∧ Records ranges (values ++ [value]) h' := by
  have hclamp := clamp_range value
  have hsmall : int32 (clamp value) = clamp value := by
    unfold kSampleTypeMax intMax at hclamp
    apply int32_of_range <;> omega
  have hranges := hrecords.samplesRanges
  have hlength := hrecords.length
  have hcount := hrecords.count
  subst hranges
  have hfirst : h.samples.bucketRanges.range 0 ≤ clamp value := by
    rw [hvalid.first]
    exact hclamp.1
  have hlast : clamp value < h.samples.bucketRanges.range h.samples.bucketRanges.bucketCount := by
    rw [hvalid.last]
    exact hclamp.2
  have ⟨counts, haccumulate, hlength', hcounts, htotal⟩ := SampleVector.accumulate_spec
    ⟨hvalid.increasing⟩ hlength hvalid.bucketCount_pos hfirst hlast 1
  refine ⟨{ h with samples := { h.samples with
    counts := counts, sum := int64 (h.samples.sum + int32 (1 * clamp value)) } }, ?_, ?_⟩
  . unfold add Histogram.ranges bucketCount
    rw [hrecords.ownRanges, hvalid.first, hvalid.last, haccumulate]
    simp [bind, Except.bind, pure, Except.pure]
  . constructor
    . exact hrecords.ownRanges
    . rfl
    . exact hlength'.trans hlength
    . intro j hj
      dsimp only
      rw [hcounts j hj, hits_concat, hcount j hj, int32_int32_add]
      split <;> rfl
    . rw [htotal, ← int32_int32_add, hrecords.total, int32_int32_add, List.length_append]
      rfl
    . dsimp only
      rw [hrecords.sum, Int.one_mul, hsmall, int64_int64_add, List.map_append, List.sum_append]
      simp

theorem addAll_records {ranges : BucketRanges} (hvalid : ranges.Valid) {old : List Int}
    {h : Histogram} (hrecords : Records ranges old h) (values : List Int)
    : ∃ h', addAll h values = .ok h' ∧ Records ranges (old ++ values) h' := by
  induction values generalizing old h with
  | nil =>
    rw [List.append_nil]
    exact ⟨h, rfl, hrecords⟩
  | cons value values ih =>
    have ⟨m, hm, hmrecords⟩ := add_records hvalid hrecords value
    have ⟨h', hh', hrecords'⟩ := ih hmrecords
    exists h'
    constructor
    . unfold addAll at hh' ⊢
      rw [List.foldlM_cons, hm]
      exact hh'
    . rw [List.append_assoc] at hrecords'
      exact hrecords'

theorem getCountAtIndex_of_records {ranges : BucketRanges} {values : List Int} {h : Histogram}
    (hrecords : Records ranges values h) {i : Nat} (hi : i < ranges.bucketCount)
    : h.samples.getCountAtIndex i = .ok (int32 (hits ranges i values)) := by
  unfold SampleVector.getCountAtIndex
  rw [hrecords.length, hrecords.count i hi, decide_eq_true hi]
  rfl

structure Recorded (ranges : BucketRanges) (values : List Int) (h : Histogram) : Prop where
  getCountAtIndex : ∀ i, i < ranges.bucketCount →
    h.samples.getCountAtIndex i = .ok (int32 (hits ranges i values))
  totalCount : h.samples.totalCount = int32 values.length
  sum : h.samples.sum = int64 (values.map clamp).sum

theorem recorded_of_records {ranges : BucketRanges} {values : List Int} {h : Histogram}
    (hrecords : Records ranges values h) : Recorded ranges values h := by
  constructor
  . intro i hi
    exact getCountAtIndex_of_records hrecords hi
  . rw [SampleVector.totalCount_eq, hrecords.total]
  . exact hrecords.sum

theorem recorded_of_create {ranges : BucketRanges} (hvalid : ranges.Valid) (values : List Int)
    : ∃ h, (create ranges >>= (addAll · values)) = .ok h ∧ Recorded ranges values h := by
  have ⟨h, hh, hrecords⟩ := create_records hvalid
  have ⟨h', hh', hrecords'⟩ := addAll_records hvalid hrecords values
  exists h'
  constructor
  . rw [hh]
    exact hh'
  . exact recorded_of_records hrecords'

def fourBuckets : BucketRanges where
  ranges := [0, 1, 3, 7, intMax]
  size_pos := by decide

theorem fourBuckets_valid : fourBuckets.Valid where
  increasing := by decide
  first := rfl
  last := rfl

theorem recorded_of_create_fourBuckets
    : ∃ h, (create fourBuckets >>= (addAll · [-5, 0, 2, 3, intMax])) = .ok h
        ∧ Recorded fourBuckets [-5, 0, 2, 3, intMax] h :=
  recorded_of_create fourBuckets_valid _

theorem sum_wraps
    : ∃ h, (create fourBuckets >>= (addAll · (List.replicate (2 ^ 32 + 5) (kSampleTypeMax - 1))))
          = .ok h
        ∧ h.samples.sum ≠ ((List.replicate (2 ^ 32 + 5) (kSampleTypeMax - 1)).map clamp).sum := by
  have ⟨h, hh, hrecords⟩ := create_records fourBuckets_valid
  have hrecords_all := addAll_records fourBuckets_valid hrecords
  have ⟨h', hh', hrecords'⟩ := hrecords_all (List.replicate (2 ^ 32 + 5) (kSampleTypeMax - 1))
  refine ⟨h', ?_, ?_⟩
  . rw [hh]
    exact hh'
  . have hclamp : clamp (kSampleTypeMax - 1) = 2147483646 := by decide
    have hsum := hrecords'.sum
    rw [List.nil_append, List.map_replicate, hclamp, List.sum_replicate] at hsum
    rw [List.map_replicate, hclamp, List.sum_replicate, hsum]
    decide

end Histogram
end Claire
