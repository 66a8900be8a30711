import ClaireCommon.Time.Impl.Timestamp

/-!
This module contains that the texts of timestamps are in the order of time.
-/

namespace Claire
namespace Timestamp

open FixedWidth Calendar

-- The beginning of the year 10000, in seconds
def endOfTexts : Int := 253402300800

structure InTexts (t : Int) : Prop where
  nonneg : 0 ≤ t
  lt : t < endOfTexts * kMicroSecondsPerSecond

def dateFields (tm : Tm) : List Nat :=
  [tm.year.toNat, tm.mon + 1, tm.mday, tm.hour, tm.min, tm.sec]

def fields (t : Int) : List Nat :=
  dateFields (gmtime (secondsSinceEpoch t)) ++ [(t.tmod kMicroSecondsPerSecond).toNat]

def dateFormat : Format := [(4, []), (2, []), (2, [0x20]), (2, [0x3a]), (2, [0x3a]), (2, [0x2e])]

def format : Format := dateFormat ++ [(6, [])]

theorem year_mono {s s' : Int} (h : s ≤ s') : (gmtime s).year ≤ (gmtime s').year := by
  rcases Int.lt_or_eq_of_le h with hlt | heq
  . have hfields := gmtime_lt hlt
    simp only [Tm.fields, List.cons_lt_cons_iff] at hfields
    omega
  . rw [heq]

theorem InTexts.parts {t : Int} (h : InTexts t)
    : secondsSinceEpoch t = t / 1000000 ∧ t.tmod kMicroSecondsPerSecond = t % 1000000 :=
  ⟨Int.tdiv_eq_ediv_of_nonneg h.nonneg, Int.tmod_eq_emod_of_nonneg h.nonneg⟩

theorem InTexts.year {t : Int} (h : InTexts t)
    : 1970 ≤ (gmtime (secondsSinceEpoch t)).year ∧ (gmtime (secondsSinceEpoch t)).year ≤ 9999 := by
  have hseconds : 0 ≤ secondsSinceEpoch t ∧ secondsSinceEpoch t ≤ 253402300799 := by
    have ⟨hlo, hhi⟩ := h
    unfold endOfTexts kMicroSecondsPerSecond at hhi
    rw [h.parts.1]
    omega
  have hfirst : (gmtime 0).year = 1970 := by decide +kernel
  have hlast : (gmtime 253402300799).year = 9999 := by decide +kernel
  rw [← hfirst, ← hlast]
  exact ⟨year_mono hseconds.1, year_mono hseconds.2⟩

theorem mday_le (leap : Bool) {m : Nat} (h : m < 12) : (daysInMonth leap).getD m 0 ≤ 31 := by
  cases leap <;> revert m <;> decide

theorem fits_fields {t : Int} (h : InTexts t) : Fits format (fields t) := by
  have ⟨hlo, hhi⟩ := h.year
  have hvalid := valid_gmtime (secondsSinceEpoch t)
  have hmday := Nat.le_trans hvalid.mday (mday_le _ hvalid.mon)
  have ⟨hmon, _, _, hhour, hmin, hsec⟩ := hvalid
  simp only [Fits, format, dateFormat, fields, dateFields, List.cons_append, List.nil_append,
    List.forall₂_cons, List.forall₂_nil_right_iff, and_true]
  rw [h.parts.2]
  omega

theorem dateText_eq {tm : Tm} (hvalid : tm.Valid) (hlo : 1000 ≤ tm.year) (hhi : tm.year ≤ 9999)
    : dateText tm ++ [0x2e] = render dateFormat (dateFields tm) := by
  have hmday := Nat.le_trans hvalid.mday (mday_le _ hvalid.mon)
  have ⟨hmon, _, _, hhour, hmin, hsec⟩ := hvalid
  have hyear : padded 0x20 4 tm.year = fixedText 4 tm.year.toNat := by
    have hcast : tm.year = (tm.year.toNat : Int) := by omega
    rw [hcast]
    exact padded_full 0x20 (by omega) (by omega)
  have hmonth : padded 0x30 2 (tm.mon + 1) = fixedText 2 (tm.mon + 1) :=
    padded_zero (n := tm.mon + 1) (by omega)
  have hmday : padded 0x30 2 tm.mday = fixedText 2 tm.mday := padded_zero (by omega)
  have hhour : padded 0x30 2 tm.hour = fixedText 2 tm.hour := padded_zero (by omega)
  have hmin : padded 0x30 2 tm.min = fixedText 2 tm.min := padded_zero (by omega)
  have hsec : padded 0x30 2 tm.sec = fixedText 2 tm.sec := padded_zero (by omega)
  simp only [dateText, hyear, hmonth, hmday, hhour, hmin, hsec, render, dateFormat, dateFields,
    List.append_assoc,
    List.append_nil]

theorem length_format : (format.map fun f => f.1 + f.2.length).sum = 24 := rfl

theorem InTexts.micro {t : Int} (h : InTexts t)
    : t.tmod kMicroSecondsPerSecond = ((t.tmod kMicroSecondsPerSecond).toNat : Int)
        ∧ (t.tmod kMicroSecondsPerSecond).toNat < 10 ^ 6 := by
  rw [h.parts.2]
  omega

theorem text_eq {t : Int} (h : InTexts t)
    : dateText (gmtime (secondsSinceEpoch t)) ++ [0x2e] ++ padded 0x30 6 (t.tmod kMicroSecondsPerSecond)
        = render format (fields t) := by
  have ⟨hlo, hhi⟩ := h.year
  have ⟨hcast, hlt⟩ := h.micro
  have hmicro := padded_zero hlt
  rw [← hcast] at hmicro
  rw [dateText_eq (valid_gmtime _) (by omega) hhi, hmicro, format, fields, render_append _ _ _ rfl]
  simp [render]

theorem length_text {t : Int} (h : InTexts t)
    : (dateText (gmtime (secondsSinceEpoch t)) ++ [0x2e]
        ++ padded 0x30 6 (t.tmod kMicroSecondsPerSecond)).length = 24 := by
  rw [text_eq h, length_render (fits_fields h), length_format]

theorem toFormattedString_eq {t : Int} (h : InTexts t)
    : toFormattedString t = dateText (gmtime (secondsSinceEpoch t)) ++ [0x2e]
        ++ padded 0x30 6 (t.tmod kMicroSecondsPerSecond) := by
  rw [toFormattedString, ← secondsSinceEpoch]
  apply List.take_of_length_le
  rw [length_text h]
  decide

theorem length_toFormattedString {t : Int} (h : InTexts t) : (toFormattedString t).length = 24 := by
  rw [toFormattedString_eq h, length_text h]

theorem fields_lt {t u : Int} (ht : InTexts t) (hu : InTexts u) (h : t < u) : fields t < fields u := by
  have ⟨hlo, _⟩ := ht.year
  have ⟨hlo', _⟩ := hu.year
  rcases Int.lt_or_le (secondsSinceEpoch t) (secondsSinceEpoch u) with hlt | hle
  . have hlt := gmtime_lt hlt
    simp only [Tm.fields, List.cons_lt_cons_iff, List.not_lt_nil, and_false, or_false] at hlt
    simp only [fields, dateFields, List.cons_append, List.cons_lt_cons_iff]
    omega
  . have hseconds : secondsSinceEpoch t = secondsSinceEpoch u ∧
        (t.tmod kMicroSecondsPerSecond).toNat < (u.tmod kMicroSecondsPerSecond).toNat := by
      rw [ht.parts.1, hu.parts.1] at hle ⊢
      rw [ht.parts.2, hu.parts.2]
      have := ht.nonneg
      omega
    rw [fields, fields, hseconds.1]
    apply List.append_left_lt
    rw [List.cons_lt_cons_iff]
    exact Or.inl hseconds.2

theorem toFormattedString_lt {t u : Int} (ht : InTexts t) (hu : InTexts u) (h : t < u)
    : toFormattedString t < toFormattedString u := by
  rw [toFormattedString_eq ht, toFormattedString_eq hu, text_eq ht, text_eq hu]
  exact FixedWidth.render_lt (fields_lt ht hu h) (fits_fields ht) (fits_fields hu)

theorem lt_iff_of_texts {t u : Int} (ht : InTexts t) (hu : InTexts u)
    : (toFormattedString t < toFormattedString u ↔ t < u)
        ∧ (toFormattedString t = toFormattedString u ↔ t = u)
        ∧ (toFormattedString t).length = 24 := by
  have ⟨hlt, heq⟩ := lt_iff_of_lt toFormattedString_lt ht hu
  exact ⟨hlt, heq, length_toFormattedString ht⟩

theorem inTexts_of_lt {t : Int} (hlo : 0 ≤ t) (hhi : t < 253402300800000000) : InTexts t :=
  ⟨hlo, by unfold endOfTexts kMicroSecondsPerSecond; omega⟩

-- From the last microsecond of a year to the first one of the next year
theorem lt_iff_of_texts_newYear
    : toFormattedString 1388534399999999 < toFormattedString 1388534400000000
        ∧ toFormattedString 1388534400000000
          = [0x32, 0x30, 0x31, 0x34, 0x30, 0x31, 0x30, 0x31, 0x20, 0x30, 0x30, 0x3a, 0x30, 0x30, 0x3a,
            0x30, 0x30, 0x2e, 0x30, 0x30, 0x30, 0x30, 0x30, 0x30] := by
  have h := lt_iff_of_texts (inTexts_of_lt (t := 1388534399999999) (by decide) (by decide))
    (inTexts_of_lt (t := 1388534400000000) (by decide) (by decide))
  exact ⟨h.1.mpr (by decide), by decide +kernel⟩

end Timestamp
end Claire
