/-!
# Dates of the civil calendar

A date of the proleptic Gregorian calendar, and its day number counted from 1970-01-01. The year
of a day is guessed from the mean length of a year, which is at most one year off, and then
corrected; the date found has the day number asked for (`Date.toDay_ofDay`).
-/

namespace RecordQuery

def isLeapYear (year : Int) : Bool :=
  year % 4 == 0 && (year % 100 != 0 || year % 400 == 0)

/-- The days from 0001-01-01 to the first day of a year. -/
def daysBeforeYear (year : Int) : Int :=
  365 * (year - 1) + (year - 1) / 4 - (year - 1) / 100 + (year - 1) / 400

/-- The day number of the first day of a year. -/
def yearStart (year : Int) : Int :=
  daysBeforeYear year - 719162

def monthLength (leap : Bool) : Nat → Nat
  | 2 => if leap then 29 else 28
  | 4 | 6 | 9 | 11 => 30
  | _ => 31

/-- The days of a year before the first of a month. -/
def daysBeforeMonth (leap : Bool) : Nat → Nat
  | 0 | 1 => 0
  | month + 1 => daysBeforeMonth leap month + monthLength leap month

structure Date where
  year : Int
  month : Nat
  day : Nat
  valid : 1 ≤ month ∧ month ≤ 12 ∧ 1 ≤ day ∧ day ≤ monthLength (isLeapYear year) month
deriving DecidableEq

namespace Date

/-- The date of these numbers, if there is one. -/
def of? (year : Int) (month day : Nat) : Option Date :=
  if valid : 1 ≤ month ∧ month ≤ 12 ∧ 1 ≤ day ∧ day ≤ monthLength (isLeapYear year) month then
    some ⟨year, month, day, valid⟩
  else none

def toDay (d : Date) : Int :=
  yearStart d.year + (daysBeforeMonth (isLeapYear d.year) d.month + d.day - 1 : Nat)

/-- The year that a day number falls in. -/
def yearOfDay (day : Int) : Int :=
  let guess := (day + 719162) * 400 / 146097 + 1
  if day < yearStart guess then guess - 1
  else if yearStart (guess + 1) ≤ day then guess + 1
  else guess

/-- The month of a day counted from the start of the year: as many months as have begun. -/
def monthOfYearDay (leap : Bool) (yearDay : Nat) : Nat :=
  ((List.range' 1 12).filter fun month => daysBeforeMonth leap month ≤ yearDay).length

theorem monthOfYearDay_valid :
    ∀ leap : Bool, ∀ yearDay < (if leap then 366 else 365),
      1 ≤ monthOfYearDay leap yearDay ∧ monthOfYearDay leap yearDay ≤ 12 ∧
        daysBeforeMonth leap (monthOfYearDay leap yearDay) ≤ yearDay ∧
        yearDay < daysBeforeMonth leap (monthOfYearDay leap yearDay)
          + monthLength leap (monthOfYearDay leap yearDay) := by
  decide +kernel

/-- A year is as long as its leap day says. -/
theorem daysBeforeYear_succ (year : Int) :
    daysBeforeYear (year + 1) = daysBeforeYear year + if isLeapYear year then 366 else 365 := by
  by_cases h : isLeapYear year = true
  · rw [if_pos h]
    simp only [isLeapYear, Bool.and_eq_true, Bool.or_eq_true, beq_iff_eq, bne_iff_ne] at h
    simp only [daysBeforeYear]
    omega
  · rw [if_neg h]
    simp only [isLeapYear, Bool.and_eq_true, Bool.or_eq_true, beq_iff_eq, bne_iff_ne] at h
    simp only [daysBeforeYear]
    omega

theorem yearStart_yearOfDay_le (day : Int) : yearStart (yearOfDay day) ≤ day := by
  simp only [yearOfDay]
  split
  · simp only [yearStart, daysBeforeYear] at *
    omega
  · split <;> simp only [yearStart, daysBeforeYear] at * <;> omega

theorem lt_yearStart_yearOfDay_succ (day : Int) : day < yearStart (yearOfDay day + 1) := by
  simp only [yearOfDay]
  split
  · simp only [yearStart, daysBeforeYear] at *
    omega
  · split <;> simp only [yearStart, daysBeforeYear] at * <;> omega

/-- The day of a day number within its year, from zero. -/
def yearDayOf (day : Int) : Nat :=
  (day - yearStart (yearOfDay day)).toNat

theorem yearDayOf_lt (day : Int) :
    yearDayOf day < if isLeapYear (yearOfDay day) then 366 else 365 := by
  have h₁ := yearStart_yearOfDay_le day
  have h₂ := lt_yearStart_yearOfDay_succ day
  have h₃ := daysBeforeYear_succ (yearOfDay day)
  simp only [yearDayOf]
  simp only [yearStart] at *
  split at h₃
  · rw [if_pos (by assumption)]
    omega
  · rw [if_neg (by assumption)]
    omega

/-- The date of a day number. -/
def ofDay (day : Int) : Date where
  year := yearOfDay day
  month := monthOfYearDay (isLeapYear (yearOfDay day)) (yearDayOf day)
  day := yearDayOf day - daysBeforeMonth (isLeapYear (yearOfDay day))
    (monthOfYearDay (isLeapYear (yearOfDay day)) (yearDayOf day)) + 1
  valid := by
    have h := monthOfYearDay_valid (isLeapYear (yearOfDay day)) (yearDayOf day) (yearDayOf_lt day)
    omega

theorem toDay_ofDay (day : Int) : (ofDay day).toDay = day := by
  have h := monthOfYearDay_valid (isLeapYear (yearOfDay day)) (yearDayOf day) (yearDayOf_lt day)
  have h₁ := yearStart_yearOfDay_le day
  have h₂ : (yearDayOf day : Int) = day - yearStart (yearOfDay day) := by
    simp only [yearDayOf]
    omega
  simp only [toDay, ofDay]
  omega

end Date

end RecordQuery
