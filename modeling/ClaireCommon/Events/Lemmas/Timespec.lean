import ClaireCommon.Events.Impl.TimeoutQueue

/-!
This module contains what it means for a `Timespec` to stand for a number of microseconds, and the
proof that the one of the timer queue does.
-/

namespace Claire

namespace Timespec

def nanoSeconds (ts : Timespec) : Int := ts.sec * 1000000000 + ts.nsec

structure Normal (ts : Timespec) : Prop where
  nonneg : 0 ≤ ts.nsec
  lt : ts.nsec < 1000000000

structure Represents (ts : Timespec) (microseconds : Int) : Prop where
  normal : ts.Normal
  exact : ts.nanoSeconds = microseconds * 1000

theorem Normal.sec_eq {ts : Timespec} (h : ts.Normal) : ts.sec = ts.nanoSeconds / 1000000000 := by
  have := h.nonneg
  have := h.lt
  unfold nanoSeconds
  omega

theorem Normal.ext {ts ts' : Timespec} (h : ts.Normal) (h' : ts'.Normal)
    (heq : ts.nanoSeconds = ts'.nanoSeconds) : ts = ts' := by
  have hsec : ts.sec = ts'.sec := by rw [h.sec_eq, h'.sec_eq, heq]
  have hnsec : ts.nsec = ts'.nsec := by
    unfold nanoSeconds at heq
    omega
  cases ts
  cases ts'
  simp_all

theorem Represents.unique {ts ts' : Timespec} {us : Int} (h : ts.Represents us)
    (h' : ts'.Represents us) : ts = ts' := by
  apply h.normal.ext h'.normal
  rw [h.exact, h'.exact]

theorem Represents.microSeconds {ts : Timespec} {us : Int} (h : ts.Represents us)
    : ts.microSeconds = us := by
  have hexact := h.exact
  unfold nanoSeconds at hexact
  unfold Timespec.microSeconds
  omega

theorem Represents.sec_eq {ts : Timespec} {us : Int} (h : ts.Represents us)
    : ts.sec = us / 1000000 := by
  rw [h.normal.sec_eq, h.exact]
  omega

end Timespec

theorem howMuchTimeFromNow_represents (when now : Int)
    : (howMuchTimeFromNow when now).Represents (max 100 (int64 (when - now))) := by
  unfold howMuchTimeFromNow
  dsimp only
  generalize hdelta : (if int64 (when - now) < 100 then (100 : Int) else int64 (when - now)) = delta
  have hmax : max 100 (int64 (when - now)) = delta := by
    rw [← hdelta]
    split <;> omega
  have hnonneg : 0 ≤ delta := by omega
  rw [hmax, Int.tdiv_eq_ediv_of_nonneg hnonneg, Int.tmod_eq_emod_of_nonneg hnonneg]
  constructor
  . constructor
    . dsimp only
      omega
    . dsimp only
      omega
  . unfold Timespec.nanoSeconds
    dsimp only
    omega

end Claire
