import FazClient.Calendar
import Mathlib.Tactic.IntervalCases

/-!
# FazClient.Proofs.Calendar

Dates by counting.  The rules of the calendar are its leap years and the lengths of its
months; the day of a date is found from them by counting all days between the first of
January 1970 and the date.

* `daysBeforeYear_eq` — how many days there are in the years between, as one sum;
* `exists_ofMarchDay` — the cycles of a day, and its place in a year from March on;
* `valid_ofEpochDay`, `epochDay_ofEpochDay` — the date of a day exists, and is that day by
  counting.
-/

namespace FazClient.Date

/-! ## Rules -/

/-- Every fourth year is a leap year, of the full centuries every fourth. -/
def isLeap (year : Int) : Bool := year % 4 = 0 ∧ (year % 100 ≠ 0 ∨ year % 400 = 0)

/-- How many days a month has. -/
def monthLength (year : Int) : (month : Nat) → Nat
  | 2 => if isLeap year then 29 else 28
  | 4 | 6 | 9 | 11 => 30
  | _ => 31

theorem monthLength_le (year : Int) (month : Nat) : monthLength year month ≤ 31 := by
  unfold monthLength
  split
  case h_1 => split <;> decide
  all_goals decide

/-- How many days of a year are before a month. -/
def daysBeforeMonth (year : Int) (month : Nat) : Nat :=
  ((List.range (month - 1)).map fun k => monthLength year (k + 1)).sum

/-- How many days a year has: those before a thirteenth month. -/
def yearLength (year : Int) : Nat := daysBeforeMonth year 13

/-- How many days so many years have, from this one on. -/
def daysOfYears (year : Int) : (count : Nat) → Nat
  | 0 => 0
  | count + 1 => yearLength year + daysOfYears (year + 1) count

/-- How many days there are from the beginning of 1970 to that of a year; less than none
for an earlier year. -/
def daysBeforeYear (year : Int) : Int :=
  daysOfYears 1970 (year - 1970).toNat - daysOfYears year (1970 - year).toNat

/-- The month and the day exist. -/
structure Valid (d : Date) : Prop where
  month : 1 ≤ d.month ∧ d.month ≤ 12
  day : 1 ≤ d.day ∧ d.day ≤ monthLength d.year d.month

instance (d : Date) : Decidable d.Valid :=
  decidable_of_iff ((1 ≤ d.month ∧ d.month ≤ 12) ∧ 1 ≤ d.day ∧ d.day ≤ monthLength d.year d.month)
    ⟨fun h => ⟨h.1, h.2⟩, fun h => ⟨h.month, h.day⟩⟩

/-- The day of a date, counted from the first of January 1970. -/
def epochDay (d : Date) : Int :=
  daysBeforeYear d.year + daysBeforeMonth d.year d.month + d.day - 1

/-! ## Years -/

/-- How many leap years there are before this one, from the year 1 on. -/
def leapsBefore (year : Int) : Int := (year - 1) / 4 - (year - 1) / 100 + (year - 1) / 400

theorem isLeap_iff {year : Int} :
    isLeap year = true ↔ year % 4 = 0 ∧ (year % 100 ≠ 0 ∨ year % 400 = 0) := by
  simp [isLeap]

theorem leapsBefore_succ (year : Int) :
    leapsBefore (year + 1) = leapsBefore year + if isLeap year then 1 else 0 := by
  simp only [leapsBefore, isLeap_iff]
  split <;> omega

theorem yearLength_eq (year : Int) : yearLength year = 365 + if isLeap year then 1 else 0 := by
  cases h : isLeap year <;> simp [yearLength, daysBeforeMonth, monthLength, List.range_succ, h]

/-- Every year has 365 days, and one more if it is a leap year. -/
theorem daysOfYears_eq (year : Int) (count : Nat) :
    daysOfYears year count = 365 * count + leapsBefore (year + count) - leapsBefore year := by
  induction count generalizing year with
  | zero => simp [daysOfYears]
  | succ count ih =>
    have hleaps := leapsBefore_succ year
    have hnext : year + 1 + count = year + (count + 1 : Nat) := by omega
    rw [daysOfYears, yearLength_eq, Nat.cast_add, ih, hnext]
    split at hleaps <;> simp_all <;> omega

theorem daysBeforeYear_eq (year : Int) :
    daysBeforeYear year = 365 * (year - 1970) + leapsBefore year - leapsBefore 1970 := by
  rw [daysBeforeYear, daysOfYears_eq, daysOfYears_eq]
  by_cases h : 1970 ≤ year
  · have hlate : (1970 : Int) + (year - 1970).toNat = year := by omega
    have hearly : year + (1970 - year).toNat = year := by omega
    rw [hlate, hearly]
    omega
  · have hlate : (1970 : Int) + (year - 1970).toNat = 1970 := by omega
    have hearly : year + (1970 - year).toNat = 1970 := by omega
    rw [hlate, hearly]
    omega

/-! ## Days -/

/-- A day of a year from March on that has no more than 365 days before it, or 366 if it
ends in a leap year. -/
structure IsMarchDay (year : Int) (day : Nat) : Prop where
  le : day ≤ 365
  leap : day = 365 → isLeap (year + 1)

theorem daysBeforeMonth_from_march (year : Int) {m : Nat} (h : m < 10) :
    daysBeforeMonth year (m + 3) = 59 + (if isLeap year then 1 else 0) + (153 * m + 2) / 5 := by
  interval_cases m <;> cases hleap : isLeap year <;>
    simp [daysBeforeMonth, monthLength, List.range_succ, hleap]

/-- How many days a month has in a year from March on, but for the last one. -/
theorem monthLength_from_march (year : Int) {m : Nat} (h : m < 10) :
    monthLength year (m + 3) = (153 * (m + 1) + 2) / 5 - (153 * m + 2) / 5 := by
  interval_cases m <;> rfl

/-- A day from March on is a date of the calendar, so many days after the first of March of
the year 0. -/
theorem ofMarchDay_spec {year : Int} {day : Nat} (h : IsMarchDay year day) :
    (ofMarchDay year day).Valid ∧
      (ofMarchDay year day).epochDay =
        365 * year + year / 4 - year / 100 + year / 400 + day - epochOffset := by
  obtain ⟨hle, hleap⟩ := h
  obtain ⟨m, hm⟩ : ∃ m, (5 * day + 2) / 153 = m := ⟨_, rfl⟩
  rw [ofMarchDay, hm]
  by_cases h10 : m < 10
  · have hyear := daysBeforeYear_eq year
    have hbefore := daysBeforeMonth_from_march year h10
    have hlength := monthLength_from_march year h10
    simp only [if_pos h10]
    refine ⟨⟨by simp only; omega, by simp only [hlength]; omega⟩, ?_⟩
    simp only [epochDay, hbefore, hyear, leapsBefore, epochOffset]
    split <;> simp_all only [isLeap_iff] <;> omega
  · -- January and February are the last two months, of the year after.
    have hyear := daysBeforeYear_eq (year + 1)
    simp only [if_neg h10]
    obtain rfl | rfl : m = 10 ∨ m = 11 := by omega
    · have hbefore : daysBeforeMonth (year + 1) (10 - 9) = 0 := rfl
      have hlength : monthLength (year + 1) (10 - 9) = 31 := rfl
      refine ⟨⟨by simp, by simp only [hlength]; omega⟩, ?_⟩
      simp only [epochDay, hbefore, hyear, leapsBefore, epochOffset]
      omega
    · have hbefore : daysBeforeMonth (year + 1) (11 - 9) = 31 := rfl
      have hlength : monthLength (year + 1) (11 - 9) = if isLeap (year + 1) then 29 else 28 := rfl
      refine ⟨⟨by simp, ?_⟩, ?_⟩
      · simp only [hlength]
        by_cases hlast : day = 365
        · rw [if_pos (hleap hlast)]
          omega
        · split <;> omega
      · simp only [epochDay, hbefore, hyear, leapsBefore, epochOffset]
        omega

/-- A day of 400 years falls into one of four centuries, of 25 times four years and of four
years; only the last century, and in it the last four years, are a day longer. -/
theorem cycles_spec {inCycle : Nat} (h : inCycle < 146097) :
    let century := min 3 (inCycle / 36524)
    let inCentury := inCycle - century * 36524
    let four := inCentury / 1461
    let inFour := inCentury % 1461
    let year := min 3 (inFour / 365)
    let day := inFour - year * 365
    (century ≤ 3 ∧ four ≤ 24 ∧ year ≤ 3 ∧ day ≤ 365) ∧
      36524 * century + 1461 * four + 365 * year + day = inCycle ∧
      (day = 365 → year = 3 ∧ (four = 24 → century = 3)) := by
  intro century inCentury four inFour year day
  have hcentury : century ≤ 3 := Nat.min_le_left ..
  have hyear : year ≤ 3 := Nat.min_le_left ..
  have hin : inCentury ≤ 36524 ∧ (inCentury = 36524 → century = 3) ∧
      36524 * century + inCentury = inCycle := by omega
  have hfour : four ≤ 24 ∧ inFour < 1461 ∧ 1461 * four + inFour = inCentury := by omega
  clear_value century inCentury
  omega

/-- The date of a day, by the cycles that are counted off. -/
theorem exists_cycles (n : Int) :
    ∃ (cycle : Int) (century four year day : Nat),
      ofEpochDay n = ofMarchDay (400 * cycle + (100 * century + 4 * four + year : Nat)) day ∧
      (century ≤ 3 ∧ four ≤ 24 ∧ year ≤ 3 ∧ day ≤ 365) ∧
      146097 * cycle + (36524 * century + 1461 * four + 365 * year + day : Nat) =
        n + epochOffset ∧
      (day = 365 → year = 3 ∧ (four = 24 → century = 3)) := by
  have hlt : ((n + epochOffset) % 146097).toNat < 146097 := by omega
  obtain ⟨hbounds, hsum, hlast⟩ := cycles_spec hlt
  refine ⟨(n + epochOffset) / 146097, _, _, _, _, rfl, hbounds, ?_, hlast⟩
  rw [hsum]
  omega

/-- Every day has its place in a year from March on. -/
theorem exists_ofMarchDay (n : Int) :
    ∃ (year : Int) (day : Nat), ofEpochDay n = ofMarchDay year day ∧ IsMarchDay year day ∧
      365 * year + year / 4 - year / 100 + year / 400 + day = n + epochOffset := by
  obtain ⟨cycle, century, four, year, day, hdate, hbounds, hsum, hlast⟩ := exists_cycles n
  refine ⟨_, day, hdate, ⟨hbounds.2.2.2, fun h => isLeap_iff.2 ?_⟩, ?_⟩
  · obtain ⟨hyear, hcentury⟩ := hlast h
    omega
  · generalize hy : 400 * cycle + ((100 * century + 4 * four + year : Nat) : Int) = y
    have hfours : y / 4 = 100 * cycle + 25 * century + four := by omega
    have hcenturies : y / 100 = 4 * cycle + century := by omega
    have hcycle : y / 400 = cycle := by omega
    rw [hfours, hcenturies, hcycle]
    omega

/-- The date of a day exists. -/
theorem valid_ofEpochDay (n : Int) : (ofEpochDay n).Valid := by
  obtain ⟨year, day, heq, hday, -⟩ := exists_ofMarchDay n
  rw [heq]
  exact (ofMarchDay_spec hday).1

/-- The date of a day is that day by counting. -/
theorem epochDay_ofEpochDay (n : Int) : (ofEpochDay n).epochDay = n := by
  obtain ⟨year, day, heq, hday, hn⟩ := exists_ofMarchDay n
  rw [heq, (ofMarchDay_spec hday).2, hn]
  omega

end FazClient.Date
