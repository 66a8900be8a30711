import Mathlib.Data.Nat.Find
import Mathlib.Algebra.Ring.Int.Defs
import Mathlib.Algebra.GroupWithZero.Nat

/-!
This module contains the calendar: what day of which year a number of days after the epoch is, and what
time of the day. Later points in time have greater fields, from the year on.

Years repeat after an era of 400, so that a day before the epoch needs no case of its own.
-/

namespace Bracket

-- The greatest `k ≤ n` whose value does not exceed `x`
def index (f : Nat → Nat) (n x : Nat) : Nat := Nat.findGreatest (fun k => f k ≤ x) n

variable {f : Nat → Nat} {n x y : Nat}

theorem index_le : index f n x ≤ n := Nat.findGreatest_le n

theorem value_le (h : f 0 ≤ x) : f (index f n x) ≤ x :=
  Nat.findGreatest_spec (P := fun k => f k ≤ x) (Nat.zero_le n) h

theorem lt_value {k : Nat} (hk : index f n x < k) (hle : k ≤ n) : x < f k :=
  Nat.lt_of_not_le (Nat.findGreatest_is_greatest (P := fun k => f k ≤ x) hk hle)

theorem lt_value_succ (h : x < f (n + 1)) : x < f (index f n x + 1) := by
  by_cases hn : index f n x = n
  . rw [hn]
    exact h
  . have hle : index f n x ≤ n := index_le
    exact lt_value (Nat.lt_succ_self _) (by omega)

theorem index_mono (h : x ≤ y) : index f n x ≤ index f n y :=
  Nat.findGreatest_mono_left (fun _ hk => Nat.le_trans hk h) n

theorem lt_cases (h0 : f 0 ≤ x) (h : x < y)
    : index f n x < index f n y ∨
      index f n x = index f n y ∧ x - f (index f n x) < y - f (index f n y) := by
  have hmono : index f n x ≤ index f n y := index_mono (Nat.le_of_lt h)
  have hx : f (index f n x) ≤ x := value_le h0
  by_cases heq : index f n x = index f n y
  . right
    rw [← heq]
    omega
  . left
    omega

end Bracket

namespace Calendar

def isLeap (y : Nat) : Bool := y % 4 = 0 && (y % 100 ≠ 0 || y % 400 = 0)

def daysBeforeYear (y : Nat) : Nat := 365 * y + (y + 3) / 4 - (y + 99) / 100 + (y + 399) / 400

theorem daysBeforeYear_succ (y : Nat)
    : daysBeforeYear (y + 1) = daysBeforeYear y + if isLeap y then 366 else 365 := by
  have h4 : (y + 4) / 4 = (y + 3) / 4 + if y % 4 = 0 then 1 else 0 := by split <;> omega
  have h100 : (y + 100) / 100 = (y + 99) / 100 + if y % 100 = 0 then 1 else 0 := by split <;> omega
  have h400 : (y + 400) / 400 = (y + 399) / 400 + if y % 400 = 0 then 1 else 0 := by split <;> omega
  have hdays : daysBeforeYear (y + 1)
      = 365 * y + 365 + (y + 4) / 4 - (y + 100) / 100 + (y + 400) / 400 := by
    unfold daysBeforeYear
    congr 2
  rw [hdays, h4, h100, h400]
  simp only [daysBeforeYear, isLeap, Bool.and_eq_true, Bool.or_eq_true, decide_eq_true_eq]
  have h100le : (y + 99) / 100 ≤ (y + 3) / 4 := by omega
  generalize (y + 3) / 4 = fours at *
  generalize (y + 99) / 100 = centuries at *
  generalize (y + 399) / 400 = eras
  clear hdays h4 h100 h400
  by_cases hy4 : y % 4 = 0
  . by_cases hy100 : y % 100 = 0
    . by_cases hy400 : y % 400 = 0
      . simp [hy4, hy100, hy400]; omega
      . simp [hy4, hy100, hy400]; omega
    . have hy400 : y % 400 ≠ 0 := by omega
      simp [hy4, hy100, hy400]; omega
  . have hy100 : y % 100 ≠ 0 := by omega
    have hy400 : y % 400 ≠ 0 := by omega
    simp [hy4, hy100, hy400]; omega

def daysInMonth (leap : Bool) : List Nat :=
  [31, if leap then 29 else 28, 31, 30, 31, 30, 31, 31, 30, 31, 30, 31]

def daysBeforeMonth (leap : Bool) (m : Nat) : Nat := ((daysInMonth leap).take m).sum

def daysPerEra : Nat := 146097

-- From the beginning of the year 0 to the epoch
def daysBeforeEpoch : Nat := 719528

def secondsPerDay : Nat := 86400

-- `struct tm` as far as it is used, `year` is `tm_year + 1900`
structure Tm where
  year : Int
  mon : Nat
  mday : Nat
  hour : Nat
  min : Nat
  sec : Nat
  deriving DecidableEq, Repr

def era (days : Int) : Int := (days + daysBeforeEpoch) / daysPerEra

def dayOfEra (days : Int) : Nat := ((days + daysBeforeEpoch) % daysPerEra).toNat

def yearOfEra (day : Nat) : Nat := Bracket.index daysBeforeYear 399 day

def dayOfYear (day : Nat) : Nat := day - daysBeforeYear (yearOfEra day)

def month (leap : Bool) (day : Nat) : Nat := Bracket.index (daysBeforeMonth leap) 11 day

def dayOfMonth (leap : Bool) (day : Nat) : Nat := day - daysBeforeMonth leap (month leap day)

def gmtime (seconds : Int) : Tm :=
  let days := seconds / secondsPerDay
  let second := (seconds % secondsPerDay).toNat
  let day := dayOfEra days
  let leap := isLeap (yearOfEra day)
  { year := 400 * era days + yearOfEra day
    mon := month leap (dayOfYear day)
    mday := dayOfMonth leap (dayOfYear day) + 1
    hour := second / 3600
    min := second / 60 % 60
    sec := second % 60 }

example : gmtime 951782399 = ⟨2000, 1, 28, 23, 59, 59⟩ := by decide +kernel

theorem dayOfEra_lt (days : Int) : dayOfEra days < daysPerEra := by
  unfold dayOfEra daysPerEra
  omega

theorem yearOfEra_le (day : Nat) : yearOfEra day ≤ 399 := Bracket.index_le

theorem dayOfYear_lt {day : Nat} (h : day < daysPerEra)
    : dayOfYear day < if isLeap (yearOfEra day) then 366 else 365 := by
  have hle : daysBeforeYear (yearOfEra day) ≤ day := Bracket.value_le (Nat.zero_le _)
  have hlt : day < daysBeforeYear (yearOfEra day + 1) := Bracket.lt_value_succ h
  rw [daysBeforeYear_succ] at hlt
  unfold dayOfYear
  omega

theorem daysBeforeMonth_succ (leap : Bool) {m : Nat} (h : m < 12)
    : daysBeforeMonth leap (m + 1) = daysBeforeMonth leap m + (daysInMonth leap).getD m 0 := by
  cases leap <;> revert m <;> decide

theorem month_le (leap : Bool) (day : Nat) : month leap day ≤ 11 := Bracket.index_le

theorem dayOfMonth_lt (leap : Bool) {day : Nat} (h : day < if leap then 366 else 365)
    : dayOfMonth leap day < (daysInMonth leap).getD (month leap day) 0 := by
  have hyear : day < daysBeforeMonth leap (11 + 1) := by
    cases leap <;> exact h
  have hle : daysBeforeMonth leap (month leap day) ≤ day := Bracket.value_le (Nat.zero_le _)
  have hlt : day < daysBeforeMonth leap (month leap day + 1) := Bracket.lt_value_succ hyear
  rw [daysBeforeMonth_succ leap (Nat.lt_succ_of_le (month_le leap day))] at hlt
  unfold dayOfMonth
  omega

structure Tm.Valid (tm : Tm) : Prop where
  mon : tm.mon < 12
  mday_pos : 1 ≤ tm.mday
  mday : tm.mday ≤ (daysInMonth (isLeap (tm.year % 400).toNat)).getD tm.mon 0
  hour : tm.hour < 24
  min : tm.min < 60
  sec : tm.sec < 60

theorem valid_gmtime (seconds : Int) : (gmtime seconds).Valid := by
  have hday := dayOfEra_lt (seconds / secondsPerDay)
  have hyear : ((gmtime seconds).year % 400).toNat = yearOfEra (dayOfEra (seconds / secondsPerDay)) := by
    have := yearOfEra_le (dayOfEra (seconds / secondsPerDay))
    dsimp only [gmtime]
    omega
  constructor
  . exact Nat.lt_succ_of_le (month_le _ _)
  . exact Nat.le_add_left 1 _
  . rw [hyear]
    exact dayOfMonth_lt _ (dayOfYear_lt hday)
  . dsimp only [gmtime, secondsPerDay]
    omega
  . dsimp only [gmtime]
    omega
  . dsimp only [gmtime]
    omega

def Tm.fields (tm : Tm) : List Int := [tm.year, tm.mon, tm.mday, tm.hour, tm.min, tm.sec]

theorem year_lt_or {d d' : Int} (h : d < d')
    : 400 * era d + yearOfEra (dayOfEra d) < 400 * era d' + yearOfEra (dayOfEra d') ∨
      400 * era d + yearOfEra (dayOfEra d) = 400 * era d' + yearOfEra (dayOfEra d') ∧
        yearOfEra (dayOfEra d) = yearOfEra (dayOfEra d') ∧
        dayOfYear (dayOfEra d) < dayOfYear (dayOfEra d') := by
  have hle := yearOfEra_le (dayOfEra d)
  have hle' := yearOfEra_le (dayOfEra d')
  have hera : era d < era d' ∨ era d = era d' ∧ dayOfEra d < dayOfEra d' := by
    unfold era dayOfEra daysPerEra
    omega
  rcases hera with hera | ⟨hera, hday⟩
  . left
    omega
  . have hcases := Bracket.lt_cases (f := daysBeforeYear) (n := 399) (Nat.zero_le _) hday
    change yearOfEra _ < yearOfEra _ ∨ yearOfEra _ = yearOfEra _ ∧ dayOfYear _ < dayOfYear _ at hcases
    omega

theorem gmtime_lt {s s' : Int} (h : s < s') : (gmtime s).fields < (gmtime s').fields := by
  simp only [Tm.fields, gmtime, List.cons_lt_cons_iff]
  have hdays : s / secondsPerDay < s' / secondsPerDay ∨ s / secondsPerDay = s' / secondsPerDay ∧
      (s % secondsPerDay).toNat < (s' % secondsPerDay).toNat := by
    unfold secondsPerDay
    omega
  rcases hdays with hdays | ⟨hdays, hsecond⟩
  . rcases year_lt_or hdays with hyear | ⟨hyear, hera, hday⟩
    . exact Or.inl hyear
    . have hmonth := Bracket.lt_cases
        (f := daysBeforeMonth (isLeap (yearOfEra (dayOfEra (s / secondsPerDay))))) (n := 11)
        (Nat.zero_le _) hday
      refine Or.inr ⟨hyear, ?_⟩
      rw [← hera]
      rcases hmonth with hmonth | ⟨hmonth, hmday⟩
      . exact Or.inl (Int.ofNat_lt.mpr hmonth)
      . refine Or.inr ⟨congrArg Nat.cast hmonth, Or.inl ?_⟩
        exact Int.ofNat_lt.mpr (Nat.succ_lt_succ hmday)
  . rw [hdays]
    simp only [Int.lt_irrefl, true_and, false_or, List.not_lt_nil, and_false, or_false]
    omega

end Calendar
