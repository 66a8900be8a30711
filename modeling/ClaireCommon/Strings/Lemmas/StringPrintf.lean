import Mathlib.Data.List.Basic
import ClaireCommon.Strings.Impl.StringPrintf

/-!
This module contains what the functions that append formatted text leave in the string: with any
`vsnprintf` nothing or what one call has formatted, and with one that behaves as documented the whole
text or nothing of it.
-/

namespace Claire
namespace StringPrintf

variable {vsnprintf : Vsnprintf} {text dst : List UInt8} {errno : Int}

theorem lt_nextLength {printed : Printed} {memLength next : Nat} (hpos : 0 < memLength)
    (hmiss : printed.fits memLength = false) (h : nextLength printed errno memLength = .ok (some next))
    : memLength < next := by
  unfold Printed.fits at hmiss
  rw [decide_eq_false_iff_not] at hmiss
  unfold nextLength at h
  split at h
  . injection h with h
    contradiction
  . split at h
    . injection h with h
      injection h with h
      omega
    . split at h
      . contradiction
      . injection h with h
        injection h with h
        omega

-- Nothing is appended or just what one call has put into a buffer it fits.
def Appends (vsnprintf : Vsnprintf) (dst : List UInt8) (result : Except IntOverflow (List UInt8)) : Prop :=
  ∀ dst', result = .ok dst' →
    dst' = dst ∨ ∃ n size, size ≤ maxLength ∧ (vsnprintf n size).fits size ∧
      dst' = dst ++ (vsnprintf n size).text

theorem appends_dst (vsnprintf : Vsnprintf) (dst : List UInt8) : Appends vsnprintf dst (.ok dst) := by
  intro dst' h
  injection h with h
  exact .inl h.symm

theorem appends_text {n size : Nat} (hle : size ≤ maxLength) (hfits : (vsnprintf n size).fits size)
    : Appends vsnprintf dst (.ok (dst ++ (vsnprintf n size).text)) := by
  intro dst' h
  injection h with h
  exact .inr ⟨n, size, hle, hfits, h.symm⟩

-- Each round takes a larger buffer than the last one.
theorem exists_appendLoop {rounds n memLength : Nat} {printed : Printed} (hpos : 0 < memLength)
    (hmiss : printed.fits memLength = false) (hrounds : maxLength < memLength + rounds)
    (hle : memLength ≤ maxLength)
    : ∃ result, appendLoop vsnprintf dst rounds n memLength errno printed = some result ∧
        Appends vsnprintf dst result := by
  induction rounds generalizing n memLength errno printed with
  | zero => omega
  | succ rounds ih =>
    unfold appendLoop
    split
    . next overflow _ => exact ⟨.error overflow, rfl, fun _ h => by contradiction⟩
    . exact ⟨.ok dst, rfl, appends_dst vsnprintf dst⟩
    . next next hnext =>
      have hlt := lt_nextLength hpos hmiss hnext
      split
      . exact ⟨.ok dst, rfl, appends_dst vsnprintf dst⟩
      . next hle' =>
        have hle' : next ≤ maxLength := Nat.le_of_not_lt hle'
        dsimp only
        split
        . next hfits => exact ⟨_, rfl, appends_text hle' hfits⟩
        . next hfits => exact ih (by omega) (Bool.eq_false_iff.mpr hfits) (by omega) hle'

theorem exists_stringAppendV (vsnprintf : Vsnprintf) (errno : Int) (dst : List UInt8)
    : ∃ result, stringAppendV vsnprintf maxLength errno dst = some result ∧
        Appends vsnprintf dst result := by
  have hle : stackSize ≤ maxLength := by decide
  have hpos : 0 < stackSize := by decide
  unfold stringAppendV
  dsimp only
  split
  . next hfits => exact ⟨_, rfl, appends_text hle hfits⟩
  . next hfits => exact exists_appendLoop hpos (Bool.eq_false_iff.mpr hfits) (by omega) hle

-- What is documented of `vsnprintf`: where the text with its NUL does not fit, a C99 library returns its
-- length and an older one a negative number, as a C99 library does for a length that is no `int`.
structure Formats (vsnprintf : Vsnprintf) (text : List UInt8) : Prop where
  fits : ∀ n size, text.length < size →
      (vsnprintf n size).result = text.length ∧ (vsnprintf n size).buffer.take text.length = text
  misses : ∀ n size, size ≤ text.length →
      (vsnprintf n size).result = text.length ∨
        (vsnprintf n size).result < 0 ∧
          ((vsnprintf n size).errno = none ∨ (vsnprintf n size).errno = some eOverflow)

namespace Formats

theorem fits_iff (h : Formats vsnprintf text) (n size : Nat)
    : (vsnprintf n size).fits size = true ↔ text.length < size := by
  unfold Printed.fits
  rw [decide_eq_true_iff]
  constructor
  . intro ⟨hnonneg, hlt⟩
    apply Classical.byContradiction
    intro hge
    rcases h.misses n size (Nat.le_of_not_lt hge) with heq | ⟨hneg, _⟩
    . omega
    . omega
  . intro hlt
    rw [(h.fits n size hlt).1]
    omega

theorem text_eq (h : Formats vsnprintf text) {n size : Nat} (hlt : text.length < size)
    : (vsnprintf n size).text = text := by
  have ⟨hresult, hbuffer⟩ := h.fits n size hlt
  unfold Printed.text
  rw [hresult, Int.toNat_natCast, hbuffer]

theorem nextLength_eq (h : Formats vsnprintf text) (hmax : (text.length : Int) ≠ intMax) {n memLength : Nat}
    (hmiss : memLength ≤ text.length) (hgoes : (vsnprintf n memLength).givesUp errno = false)
    : nextLength (vsnprintf n memLength) errno memLength = .ok (some (text.length + 1)) ∨
      (vsnprintf n memLength).result < 0 ∧
        nextLength (vsnprintf n memLength) errno memLength = .ok (some (memLength * 2)) := by
  unfold nextLength
  rw [hgoes, if_neg Bool.false_ne_true]
  rcases h.misses n memLength hmiss with heq | ⟨hneg, _⟩
  . rw [if_neg (by omega), if_neg (by rw [heq]; exact hmax), heq]
    exact .inl rfl
  . rw [if_pos hneg]
    exact .inr ⟨hneg, rfl⟩

theorem givesUp_next (h : Formats vsnprintf text) {printed : Printed} (hneg : printed.result < 0)
    (hgoes : printed.givesUp errno = false) {n memLength : Nat} (hmiss : memLength ≤ text.length)
    : (vsnprintf n memLength).givesUp (printed.errnoAfter errno) = false := by
  unfold Printed.givesUp at hgoes ⊢
  rw [decide_eq_false_iff_not] at hgoes ⊢
  intro ⟨hneg', hzero, hoverflow⟩
  rcases h.misses n memLength hmiss with heq | ⟨_, hnone | hsome⟩
  . omega
  . unfold Printed.errnoAfter at hzero hoverflow
    rw [hnone] at hzero hoverflow
    exact hgoes ⟨hneg, hzero, hoverflow⟩
  . unfold Printed.errnoAfter at hoverflow
    rw [hsome] at hoverflow
    exact hoverflow rfl

-- The buffers double, so that one of them has just the largest size.
theorem appendLoop_eq (h : Formats vsnprintf text) (hmax : (text.length : Int) ≠ intMax)
    {doublings rounds n memLength : Nat} (hlength : memLength * 2 ^ doublings = maxLength)
    (hrounds : doublings < rounds) (hmiss : memLength ≤ text.length)
    (hgoes : (vsnprintf n memLength).givesUp errno = false)
    : appendLoop vsnprintf dst rounds n memLength errno (vsnprintf n memLength) =
        some (.ok (if text.length < maxLength then dst ++ text else dst)) := by
  induction doublings generalizing rounds n memLength errno with
  | zero =>
    rw [Nat.pow_zero, Nat.mul_one] at hlength
    have ⟨rounds, hsucc⟩ := Nat.exists_eq_add_one_of_ne_zero (Nat.ne_of_gt hrounds)
    subst hsucc
    unfold appendLoop
    have hlarge : ¬text.length < maxLength := by omega
    rw [if_neg hlarge]
    rcases h.nextLength_eq hmax hmiss hgoes with heq | ⟨_, heq⟩
    . rw [heq]
      exact if_pos (by omega)
    . rw [heq]
      exact if_pos (by unfold maxLength at *; omega)
  | succ doublings ih =>
    have ⟨rounds, hsucc⟩ := Nat.exists_eq_add_one_of_ne_zero (Nat.ne_zero_of_lt hrounds)
    subst hsucc
    unfold appendLoop
    rcases h.nextLength_eq hmax hmiss hgoes with heq | ⟨hneg, heq⟩
    . rw [heq]
      dsimp only
      by_cases hlarge : text.length + 1 > maxLength
      . rw [if_pos hlarge, if_neg (by omega)]
      . rw [if_neg hlarge, if_pos ((h.fits_iff _ _).mpr (Nat.lt_succ_self _)), if_pos (by omega),
          h.text_eq (Nat.lt_succ_self _)]
    . have hdouble : memLength * 2 * 2 ^ doublings = maxLength := by
        rw [← hlength, Nat.pow_succ, Nat.mul_assoc, Nat.mul_comm 2]
      have hle : memLength * 2 ≤ maxLength := by
        rw [← hdouble]
        exact Nat.le_mul_of_pos_right _ (Nat.two_pow_pos _)
      rw [heq]
      dsimp only
      rw [if_neg (Nat.not_lt_of_le hle)]
      by_cases hfits : text.length < memLength * 2
      . rw [if_pos ((h.fits_iff _ _).mpr hfits), if_pos (Nat.lt_of_lt_of_le hfits hle), h.text_eq hfits]
      . rw [if_neg ((h.fits_iff _ _).not.mpr hfits)]
        have hmiss' := Nat.le_of_not_lt hfits
        exact ih hdouble (by omega) hmiss' (h.givesUp_next hneg hgoes hmiss')

end Formats

-- Whatever the library does the functions come to an end, and with one that formats a text they append it
-- where it fits the first buffer, or the largest one and the loop goes on after the first call.
structure AppendsFormatted (vsnprintf : Vsnprintf) (errno : Int) (dst : List UInt8) : Prop where
  ends : ∃ result, stringAppendV vsnprintf maxLength errno dst = some result ∧ Appends vsnprintf dst result
  whole : ∀ text, Formats vsnprintf text → (text.length : Int) ≠ intMax →
      stringAppendV vsnprintf 16 errno dst =
        some (.ok (if text.length < stackSize ∨
            text.length < maxLength ∧ (vsnprintf 0 stackSize).givesUp errno = false then
          dst ++ text
        else
          dst))

theorem appendsFormatted (vsnprintf : Vsnprintf) (errno : Int) (dst : List UInt8)
    : AppendsFormatted vsnprintf errno dst where
  ends := exists_stringAppendV vsnprintf errno dst
  whole := by
    intro text h hmax
    unfold stringAppendV
    dsimp only
    by_cases hfits : text.length < stackSize
    . rw [if_pos ((h.fits_iff 0 _).mpr hfits), if_pos (.inl hfits), h.text_eq hfits]
    . rw [if_neg ((h.fits_iff 0 _).not.mpr hfits)]
      cases hgoes : (vsnprintf 0 stackSize).givesUp errno with
      | false =>
        have hlength : stackSize * 2 ^ 15 = maxLength := by decide
        rw [h.appendLoop_eq hmax hlength (by decide) (Nat.le_of_not_lt hfits) hgoes]
        simp only [hfits, false_or, and_true]
      | true =>
        unfold appendLoop nextLength
        rw [if_pos hgoes, if_neg (by simp [hfits])]

def letters : List UInt8 := List.replicate 5000 0x61

-- A library that says no more than that the text does not fit
def oldLibrary : Vsnprintf := fun _ size =>
  if letters.length < size then ⟨letters.length, none, letters⟩ else ⟨-1, none, letters.take size⟩

theorem formats_oldLibrary : Formats oldLibrary letters where
  fits := by
    intro n size h
    unfold oldLibrary
    rw [if_pos h]
    exact ⟨rfl, List.take_length⟩
  misses := by
    intro n size h
    unfold oldLibrary
    rw [if_neg (Nat.not_lt_of_le h)]
    exact .inr ⟨Int.negSucc_lt_zero 0, .inl rfl⟩

-- An `ENOENT` from before the call drops the text.
theorem appendsFormatted_oldLibrary
    : stringPrintV oldLibrary 16 0 = some (.ok letters) ∧ stringPrintV oldLibrary 16 2 = some (.ok []) := by
  have hlength : letters.length = 5000 := List.length_replicate
  have hmax : (letters.length : Int) ≠ intMax := by rw [hlength]; decide
  have hfirst (errno : Int)
      : (oldLibrary 0 stackSize).givesUp errno = (errno ≠ 0 ∧ errno ≠ eOverflow : Bool) := by
    unfold oldLibrary Printed.givesUp
    rw [if_neg (by rw [hlength]; decide)]
    simp [Printed.errnoAfter]
  unfold stringPrintV
  constructor
  . rw [(appendsFormatted oldLibrary 0 []).whole letters formats_oldLibrary hmax, hfirst, hlength]
    rfl
  . rw [(appendsFormatted oldLibrary 2 []).whole letters formats_oldLibrary hmax, hfirst, hlength]
    rfl

end StringPrintf
end Claire
