import ClaireCommon.Lib.Except
import ClaireCommon.Metrics.Impl.WriteJSON
import ClaireCommon.Metrics.Lemmas.SampleVector
import Mathlib.Algebra.Order.BigOperators.Group.List
import Mathlib.Algebra.Order.Group.Int

/-!
This module contains when the document of a histogram accounts for all samples.
-/

namespace Claire

open Protobuf (Json)

namespace SampleVector

-- `n` calls of `Accumulate`, fewer than would make a count wrap around
structure Counted (n : Nat) (samples : SampleVector) : Prop where
  pos : 0 < samples.counts.length
  length : samples.counts.length = samples.bucketRanges.bucketCount
  nonneg : ∀ c ∈ samples.counts, 0 ≤ c
  sum : samples.counts.sum = n

theorem searchBucket_lt {ranges : BucketRanges} {value : Int} {bucketUnder bucketOver mid : Nat}
    (h : searchBucket ranges value bucketUnder bucketOver = .ok mid) (hlt : bucketUnder < bucketOver)
    : mid < bucketOver := by
  fun_induction searchBucket ranges value bucketUnder bucketOver with
  | case1 => contradiction
  | case2 bucketUnder bucketOver hback mid' hmid =>
    injection h with h
    omega
  | case3 bucketUnder bucketOver hback mid' hmid hle ih => exact ih h (by omega)
  | case4 bucketUnder bucketOver hback mid' hmid hgt ih =>
    have := ih h (by omega)
    omega

theorem getBucketIndex_lt {samples : SampleVector} {value : Int} {i : Nat}
    (h : samples.getBucketIndex value = .ok i) : i < samples.bucketRanges.bucketCount := by
  unfold getBucketIndex at h
  have ⟨_, hpos, h⟩ := Except.bind_eq_ok.mp h
  have ⟨_, _, h⟩ := Except.bind_eq_ok.mp h
  have ⟨_, _, h⟩ := Except.bind_eq_ok.mp h
  have ⟨mid, hmid, h⟩ := Except.bind_eq_ok.mp h
  have ⟨_, _, h⟩ := Except.bind_eq_ok.mp h
  have ⟨_, _, h⟩ := Except.bind_eq_ok.mp h
  injection h with h
  have hpos := of_decide_eq_true (check_eq_ok hpos)
  rw [← h]
  exact searchBucket_lt hmid hpos

theorem mem_modify {counts : List Int} {f : Int → Int} {i : Nat} {c : Int}
    (h : c ∈ counts.modify i f) : c ∈ counts ∨ ∃ c' ∈ counts, c = f c' := by
  have ⟨j, hj, heq⟩ := List.mem_iff_getElem.mp h
  rw [List.getElem_modify] at heq
  rw [List.length_modify] at hj
  split at heq
  . exact Or.inr ⟨counts[j], List.getElem_mem hj, heq.symm⟩
  . rw [← heq]
    exact Or.inl (List.getElem_mem hj)

theorem Counted.accumulate {n : Nat} {samples samples' : SampleVector} (h : Counted n samples)
    (hlt : n + 1 < 2 ^ 31) {value count : Int}
    (haccumulate : samples.accumulate value count = .ok samples')
    : Counted (n + 1) samples' ∧ samples'.bucketRanges = samples.bucketRanges := by
  unfold SampleVector.accumulate at haccumulate
  have ⟨i, hi, heq⟩ := Except.bind_eq_ok.mp haccumulate
  injection heq with heq
  have hi := getBucketIndex_lt hi
  rw [← h.length] at hi
  have hsucc : ∀ c ∈ samples.counts, int32 (c + 1) = c + 1 := by
    intro c hc
    have hnonneg := h.nonneg c hc
    have hle := List.single_le_sum h.nonneg c hc
    rw [h.sum] at hle
    apply int32_of_range <;> omega
  rw [← heq]
  unfold increaseSum
  refine ⟨⟨?_, ?_, ?_, ?_⟩, rfl⟩
  . dsimp only
    rw [List.length_modify]
    exact h.pos
  . dsimp only
    rw [List.length_modify]
    exact h.length
  . intro c hc
    cases mem_modify hc with
    | inl hmem => exact h.nonneg c hmem
    | inr hmem =>
      have ⟨c', hmem, heq⟩ := hmem
      have hnonneg := h.nonneg c' hmem
      rw [heq, hsucc c' hmem]
      omega
  . dsimp only
    rw [sum_modify _ hi, hsucc _ (List.getElem_mem hi), h.sum]
    omega

end SampleVector

namespace Histogram

theorem counted_of_add {n : Nat} {h h' : Histogram} {value : Int}
    (hcounted : h.samples.Counted n) (hranges : h.samples.bucketRanges = h.bucketRanges)
    (hlt : n + 1 < 2 ^ 31) (hadd : h.add value = .ok h')
    : h'.samples.Counted (n + 1) ∧ h'.samples.bucketRanges = h'.bucketRanges := by
  unfold add at hadd
  have ⟨_, _, hadd⟩ := Except.bind_eq_ok.mp hadd
  have ⟨_, _, hadd⟩ := Except.bind_eq_ok.mp hadd
  have ⟨samples, hsamples, heq⟩ := Except.bind_eq_ok.mp hadd
  injection heq with heq
  have ⟨hcounted', hranges'⟩ := hcounted.accumulate hlt hsamples
  rw [← heq]
  refine ⟨hcounted', ?_⟩
  dsimp only
  rw [hranges', hranges]

theorem counted_of_addAll {n : Nat} {h h' : Histogram} {values : List Int}
    (hcounted : h.samples.Counted n) (hranges : h.samples.bucketRanges = h.bucketRanges)
    (hlt : n + values.length < 2 ^ 31) (hadd : addAll h values = .ok h')
    : h'.samples.Counted (n + values.length) ∧ h'.samples.bucketRanges = h'.bucketRanges := by
  induction values generalizing n h with
  | nil =>
    injection hadd with hadd
    rw [← hadd]
    exact ⟨hcounted, hranges⟩
  | cons value values ih =>
    rw [List.length_cons] at hlt ⊢
    unfold addAll at hadd
    rw [List.foldlM_cons] at hadd
    have ⟨m, hm, hadd⟩ := Except.bind_eq_ok.mp hadd
    have ⟨hcounted, hranges⟩ := counted_of_add hcounted hranges (by omega) hm
    have hend := ih hcounted hranges (by omega) hadd
    rw [Nat.add_right_comm, Nat.add_assoc] at hend
    exact hend

theorem counted_of_create {ranges : BucketRanges} {values : List Int} {h : Histogram}
    (hlt : values.length < 2 ^ 31) (hh : (create ranges >>= (addAll · values)) = .ok h)
    : h.samples.Counted values.length ∧ h.samples.bucketRanges = h.bucketRanges := by
  have ⟨fresh, hfresh, hadd⟩ := Except.bind_eq_ok.mp hh
  unfold create SampleVector.create at hfresh
  have ⟨samples, hsamples, heq⟩ := Except.bind_eq_ok.mp hfresh
  have ⟨_, hpos, hsamples⟩ := Except.bind_eq_ok.mp hsamples
  have hpos := of_decide_eq_true (check_eq_ok hpos)
  injection hsamples with hsamples
  injection heq with heq
  have hcounted : fresh.samples.Counted 0 ∧ fresh.samples.bucketRanges = fresh.bucketRanges := by
    rw [← heq, ← hsamples]
    refine ⟨⟨?_, List.length_replicate, ?_, ?_⟩, rfl⟩
    . dsimp only
      rw [List.length_replicate]
      exact hpos
    . intro c hc
      rw [List.eq_of_mem_replicate hc]
    . simp
  have hend := counted_of_addAll hcounted.1 hcounted.2 (by omega) hadd
  rw [Nat.zero_add] at hend
  exact hend

end Histogram

namespace DeclaredHistogram

variable {toolchain : Toolchain}

def nonEmpty (h : DeclaredHistogram) : List Nat :=
  (List.range h.bucketCount).filter fun i => h.samples.count i ≠ 0

def hasMember (value : Json) (name : String) (member : Json) : Prop :=
  ∃ members, value = .object members ∧ members.lookup (key name) = some member

structure IsBucket (h : DeclaredHistogram) (i : Nat) (bucketValue : Json) : Prop where
  low : hasMember bucketValue "low" (ofInt (h.ranges i))
  count : hasMember bucketValue "count" (ofInt (h.samples.count i))

-- One element for each bucket that is not empty, the counts add up to the one of the document.
structure Accounts (h : DeclaredHistogram) (document : Json) : Prop where
  buckets : ∃ items, hasMember document "buckets" (.array items) ∧
    List.Forall₂ (IsBucket h) (nonEmpty h) items
  increasing : ((nonEmpty h).map h.ranges).Pairwise (· < ·)
  total : hasMember document "count" (ofInt ((nonEmpty h).map h.samples.count).sum)

theorem addMember_null_eq_ok {name : String} {member value : Json}
    (h : addMember toolchain .null name member = .ok value) : value = .null := by
  unfold addMember at h
  dsimp only at h
  split at h
  . contradiction
  . injection h with h
    exact h.symm

theorem addBounds_null_eq_ok {h : DeclaredHistogram} {i : Nat} {count : Int} {value : Json}
    (hbounds : addBounds toolchain h .null i count = .ok value) : value = .null := by
  unfold addBounds at hbounds
  split at hbounds
  . have ⟨_, hhigh, hcount⟩ := Except.bind_eq_ok.mp hbounds
    rw [addMember_null_eq_ok hhigh] at hcount
    exact addMember_null_eq_ok hcount
  . injection hbounds with hbounds
    exact hbounds.symm

-- What is written for a bucket is made from a value that is no object.
theorem writeBucket_eq_ok {h : DeclaredHistogram} {snapshot : SampleVector} {buckets result : List Json}
    {i : Nat} (hwrite : writeBucket toolchain h snapshot buckets i = .ok result)
    (hnull : ∀ item ∈ buckets, item = .null) : ∀ item ∈ result, item = .null := by
  unfold writeBucket at hwrite
  have ⟨count, _, hwrite⟩ := Except.bind_eq_ok.mp hwrite
  split at hwrite
  . have ⟨_, hlow, hwrite⟩ := Except.bind_eq_ok.mp hwrite
    rw [addMember_null_eq_ok hlow] at hwrite
    have ⟨_, hbounds, hwrite⟩ := Except.bind_eq_ok.mp hwrite
    rw [addBounds_null_eq_ok hbounds] at hwrite
    injection hwrite with hwrite
    rw [← hwrite]
    intro item hitem
    cases List.mem_append.mp hitem with
    | inl hmem => exact hnull item hmem
    | inr hmem => exact List.mem_singleton.mp hmem
  . injection hwrite with hwrite
    rw [← hwrite]
    exact hnull

theorem foldlM_writeBucket_eq_ok {h : DeclaredHistogram} {snapshot : SampleVector}
    {indices : List Nat} {buckets result : List Json}
    (hwrite : indices.foldlM (writeBucket toolchain h snapshot) buckets = .ok result)
    (hnull : ∀ item ∈ buckets, item = .null) : ∀ item ∈ result, item = .null := by
  induction indices generalizing buckets with
  | nil =>
    injection hwrite with hwrite
    rw [← hwrite]
    exact hnull
  | cons i indices ih =>
    rw [List.foldlM_cons] at hwrite
    have ⟨_, hbucket, hwrite⟩ := Except.bind_eq_ok.mp hwrite
    exact ih hwrite (writeBucket_eq_ok hbucket hnull)

def header (toolchain : Toolchain) (h : DeclaredHistogram) (snapshot : SampleVector)
    : List (List UInt8 × Json) :=
  [(key "name", stringRef (!toolchain.sharesCopies) h.histogramName),
    (key "count", ofInt snapshot.totalCount),
    (key "sum", .number (.ofInt64 (.ofInt snapshot.sum))),
    (key "type", stringRef true (key type)),
    (key "min", ofInt h.declaredMin),
    (key "max", ofInt h.declaredMax),
    (key "bucket_count", .number (.ofUInt64 (.ofNat h.bucketCount)))]

theorem writeJSON_eq (h : DeclaredHistogram)
    : writeJSON toolchain h = do
        let snapshot ← h.snapshotSampleVector
        let buckets ← (List.range h.bucketCount).foldlM (writeBucket toolchain h snapshot) []
        return .object (header toolchain h snapshot ++ [(key "buckets", Json.array buckets)]) := rfl

theorem count_eq_zero {samples : SampleVector} (h : samples.Counted 0) (i : Nat)
    : samples.count i = 0 := by
  unfold SampleVector.count
  rw [List.getD_eq_getElem?_getD]
  cases hi : samples.counts[i]? with
  | none => rfl
  | some c =>
    have hmem := List.mem_of_getElem? hi
    have hnonneg := h.nonneg c hmem
    have hle := List.single_le_sum h.nonneg c hmem
    rw [h.sum] at hle
    dsimp only [Option.getD_some]
    omega

theorem nonEmpty_eq_nil {h : DeclaredHistogram} (hcounted : h.samples.Counted 0) : h.nonEmpty = [] := by
  unfold nonEmpty
  rw [List.filter_eq_nil_iff]
  intro i _
  simp [count_eq_zero hcounted i]

theorem nonEmpty_ne_nil {h : DeclaredHistogram} {n : Nat} (hcounted : h.samples.Counted n)
    (hranges : h.samples.bucketRanges = h.bucketRanges) (hpos : 0 < n) : h.nonEmpty ≠ [] := by
  intro hnil
  unfold nonEmpty at hnil
  rw [List.filter_eq_nil_iff] at hnil
  have hzero : h.samples.counts.sum = 0 := by
    apply List.sum_eq_zero
    intro c hc
    have ⟨i, hi, heq⟩ := List.mem_iff_getElem.mp hc
    have hlength := hcounted.length
    rw [hranges] at hlength
    have := hnil i (by rw [List.mem_range]; unfold Histogram.bucketCount; omega)
    unfold SampleVector.count at this
    rw [List.getD_eq_getElem?_getD, List.getElem?_eq_getElem hi, Option.getD_some] at this
    rw [← heq]
    simpa using this
  rw [hcounted.sum] at hzero
  omega

theorem foldlM_writeBucket_of_zero {h : DeclaredHistogram} {snapshot : SampleVector}
    {indices : List Nat} (hlt : ∀ i ∈ indices, i < snapshot.counts.length)
    (hzero : ∀ i, snapshot.count i = 0) (buckets : List Json)
    : indices.foldlM (writeBucket toolchain h snapshot) buckets = .ok buckets := by
  induction indices with
  | nil => rfl
  | cons i indices ih =>
    rw [List.forall_mem_cons] at hlt
    have hwrite : writeBucket toolchain h snapshot buckets i = .ok buckets := by
      have hcount : snapshot.getCountAtIndex i = .ok 0 := by
        unfold SampleVector.getCountAtIndex
        rw [decide_eq_true hlt.1]
        exact congrArg _ (hzero i)
      unfold writeBucket
      rw [hcount]
      rfl
    rw [List.foldlM_cons, hwrite]
    exact ih hlt.2

theorem skipEmptyBuckets_of_zero {counts : List Int} (hzero : ∀ i, counts.getD i 0 = 0) {index : Nat}
    (hle : index ≤ counts.length)
    : SampleVectorIterator.skipEmptyBuckets counts index = counts.length := by
  fun_induction SampleVectorIterator.skipEmptyBuckets counts index with
  | case1 index hlt hne => exact absurd (hzero index) hne
  | case2 index hlt heq ih => exact ih hlt
  | case3 index hge => omega

theorem exists_iterator_of_zero {samples : SampleVector} (hcounted : samples.Counted 0)
    : ∃ iter, samples.iterator = .ok iter ∧ iter.done = true := by
  refine ⟨SampleVectorIterator.startingAt samples.counts samples.bucketRanges 0 (Nat.zero_le _), ?_, ?_⟩
  . unfold SampleVector.iterator SampleVectorIterator.create
    rw [decide_eq_true (Nat.le_of_eq hcounted.length)]
    rfl
  . unfold SampleVectorIterator.done
    rw [decide_eq_true_eq]
    exact skipEmptyBuckets_of_zero (count_eq_zero hcounted) (Nat.zero_le _)

theorem addSubtractImpl_of_done {op : Operator} {samples : SampleVector} {index : Nat}
    {iter : SampleVectorIterator} (h : iter.done = true)
    : SampleVector.addSubtractImpl op samples index iter = (true, samples) := by
  unfold SampleVector.addSubtractImpl
  rw [dif_neg, h]
  rw [h]
  simp

theorem snapshotSampleVector_of_zero {h : Histogram} (hcounted : h.samples.Counted 0)
    (hranges : h.samples.bucketRanges = h.bucketRanges)
    : h.snapshotSampleVector = .ok ⟨List.replicate h.bucketCount 0, h.bucketRanges,
        int64 (0 + h.samples.sum)⟩ := by
  have hlength := hcounted.length
  have hpos := hcounted.pos
  rw [hranges] at hlength
  have ⟨iter, hiter, hdone⟩ := exists_iterator_of_zero hcounted
  have hcreate : SampleVector.create h.bucketRanges =
      .ok ⟨List.replicate h.bucketCount 0, h.bucketRanges, 0⟩ := by
    unfold SampleVector.create
    rw [decide_eq_true (by omega)]
    rfl
  unfold Histogram.snapshotSampleVector SampleVector.add SampleVector.addSubtract
  rw [hcreate, hiter]
  dsimp only [bind, Except.bind]
  rw [addSubtractImpl_of_done hdone]
  rfl

theorem not_isBucket_null {h : DeclaredHistogram} {i : Nat} : ¬IsBucket h i .null := by
  intro hbucket
  have ⟨members, heq, _⟩ := hbucket.low
  contradiction

theorem lookup_header (h : DeclaredHistogram) (snapshot : SampleVector) (buckets : List Json)
    : (header toolchain h snapshot ++ [(key "buckets", Json.array buckets)]).lookup (key "buckets") =
        some (.array buckets) := rfl

theorem not_accounts {n : Nat} {h : DeclaredHistogram} (hcounted : h.samples.Counted n)
    (hranges : h.samples.bucketRanges = h.bucketRanges) (hpos : 0 < n)
    : ¬∃ document, writeJSON toolchain h = .ok document ∧ Accounts h document := by
  intro ⟨document, hwrite, haccounts⟩
  rw [writeJSON_eq] at hwrite
  have ⟨snapshot, _, hwrite⟩ := Except.bind_eq_ok.mp hwrite
  have ⟨buckets, hbuckets, hwrite⟩ := Except.bind_eq_ok.mp hwrite
  injection hwrite with hwrite
  have hnull : ∀ item ∈ buckets, item = .null := by
    apply foldlM_writeBucket_eq_ok hbuckets
    simp
  have ⟨items, ⟨members, heq, hlookup⟩, hitems⟩ := haccounts.buckets
  rw [← hwrite] at heq
  injection heq with heq
  rw [← heq, lookup_header] at hlookup
  injection hlookup with hlookup
  injection hlookup with hlookup
  rw [← hlookup] at hitems
  cases hbucketed : nonEmpty h with
  | nil => exact nonEmpty_ne_nil hcounted hranges hpos hbucketed
  | cons i indices =>
    rw [hbucketed] at hitems
    cases hitems with
    | @cons _ item _ items hfirst _ =>
      rw [hnull item List.mem_cons_self] at hfirst
      exact not_isBucket_null hfirst

theorem exists_accounts {h : DeclaredHistogram} (hcounted : h.samples.Counted 0)
    (hranges : h.samples.bucketRanges = h.bucketRanges)
    : ∃ document, writeJSON toolchain h = .ok document ∧ Accounts h document := by
  have hnil := nonEmpty_eq_nil hcounted
  have hbuckets : (List.range h.bucketCount).foldlM (writeBucket toolchain h
      ⟨List.replicate h.bucketCount 0, h.bucketRanges, int64 (0 + h.samples.sum)⟩) [] = .ok [] := by
    apply foldlM_writeBucket_of_zero
    . intro i hi
      dsimp only
      rw [List.length_replicate]
      exact List.mem_range.mp hi
    . intro i
      apply SampleVector.getD_replicate_zero
  rw [writeJSON_eq, snapshotSampleVector_of_zero hcounted hranges]
  dsimp only [bind, Except.bind]
  rw [hbuckets]
  refine ⟨_, rfl, ⟨⟨[], ⟨_, rfl, lookup_header _ _ _⟩, ?_⟩, ?_, ?_⟩⟩
  . rw [hnil]
    exact List.Forall₂.nil
  . rw [hnil]
    apply List.Pairwise.nil
  . rw [hnil]
    refine ⟨_, rfl, ?_⟩
    have htotal : SampleVector.totalCount
        ⟨List.replicate h.bucketCount 0, h.bucketRanges, int64 (0 + h.samples.sum)⟩ = 0 := by
      have hsum : (List.replicate h.bucketCount (0 : Int)).sum = 0 := by simp
      rw [SampleVector.totalCount_eq, hsum]
      rfl
    show some (ofInt _) = _
    rw [htotal]
    rfl

theorem accounts_iff {ranges : BucketRanges} {values : List Int} {h : DeclaredHistogram}
    (hlt : values.length < 2 ^ 31)
    (hh : (Histogram.create ranges >>= (Histogram.addAll · values)) = .ok h.toHistogram)
    : (∃ document, writeJSON toolchain h = .ok document ∧ Accounts h document) ↔ values = [] := by
  have ⟨hcounted, hranges⟩ := Histogram.counted_of_create hlt hh
  constructor
  . intro h
    by_contra hvalues
    exact not_accounts hcounted hranges (List.length_pos_iff.mpr hvalues) h
  . intro hvalues
    rw [hvalues] at hcounted
    exact exists_accounts hcounted hranges

def fresh : DeclaredHistogram where
  bucketRanges := Histogram.fourBuckets
  samples := ⟨[0, 0, 0, 0], Histogram.fourBuckets, 0⟩
  histogramName := key "latency"
  declaredMin := 1
  declaredMax := 7

theorem accounts_iff_fresh
    : ∃ document, writeJSON ⟨true, true⟩ fresh = .ok document ∧ Accounts fresh document := by
  have hh : (Histogram.create Histogram.fourBuckets >>= (Histogram.addAll · [])) =
      .ok fresh.toHistogram := rfl
  exact (accounts_iff (by decide) hh).mpr rfl

-- One call of `Add`, with either way to build rapidjson
theorem not_accounts_zero
    : ∃ h : DeclaredHistogram,
        (Histogram.create Histogram.fourBuckets >>= (Histogram.addAll · [0])) = .ok h.toHistogram ∧
        ∀ toolchain, ¬∃ document, writeJSON toolchain h = .ok document ∧ Accounts h document := by
  have ⟨h, hh, hrecords⟩ := Histogram.create_records Histogram.fourBuckets_valid
  have ⟨h', hh', _⟩ := Histogram.addAll_records Histogram.fourBuckets_valid hrecords [0]
  have hadd : (Histogram.create Histogram.fourBuckets >>= (Histogram.addAll · [0])) = .ok h' := by
    rw [hh]
    exact hh'
  have ⟨hcounted, hranges⟩ := Histogram.counted_of_create (by decide) hadd
  refine ⟨⟨h', key "latency", 1, 7⟩, hadd, ?_⟩
  intro toolchain
  exact not_accounts hcounted hranges (by decide)

end DeclaredHistogram
end Claire
