import RecordQuery.Calendar.Date

/-!
# Dates and day numbers

Each date has a day number of its own. The years follow each other without overlap, and so do the
months of a year, so the date of a day number is the one date that has it (`Date.ofDay_toDay`).
-/

namespace RecordQuery

theorem yearStart_mono {a b : Int} (h : a ≤ b) : yearStart a ≤ yearStart b := by
  simp only [yearStart, daysBeforeYear]
  omega

theorem yearStart_succ (year : Int) :
    yearStart (year + 1) = yearStart year + if isLeapYear year then 366 else 365 := by
  rw [yearStart, yearStart, Date.daysBeforeYear_succ]
  omega

/-- A month is over before any later one begins. -/
theorem daysBeforeMonth_add_le :
    ∀ leap : Bool, ∀ later < 13, ∀ month < later, 1 ≤ month →
      daysBeforeMonth leap month + monthLength leap month ≤ daysBeforeMonth leap later := by
  decide

theorem daysBeforeMonth_add_le_yearLength :
    ∀ leap : Bool, ∀ month < 13, 1 ≤ month →
      daysBeforeMonth leap month + monthLength leap month ≤ if leap then 366 else 365 := by
  decide

namespace Date

/-- A day lies in the year whose first day has come and whose end has not. -/
theorem yearOfDay_eq {year day : Int} (hstart : yearStart year ≤ day)
    (hend : day < yearStart (year + 1)) : yearOfDay day = year := by
  have hle := yearStart_yearOfDay_le day
  have hlt := lt_yearStart_yearOfDay_succ day
  rcases Int.lt_trichotomy (yearOfDay day) year with h | h | h
  · have := yearStart_mono (Int.add_one_le_of_lt h)
    omega
  · exact h
  · have := yearStart_mono (Int.add_one_le_of_lt h)
    omega

theorem monthOfYearDay_eq {leap : Bool} {month yearDay : Nat} (hmonth : 1 ≤ month ∧ month ≤ 12)
    (hstart : daysBeforeMonth leap month ≤ yearDay)
    (hend : yearDay < daysBeforeMonth leap month + monthLength leap month) :
    monthOfYearDay leap yearDay = month := by
  have hlength := daysBeforeMonth_add_le_yearLength leap month (by omega) hmonth.1
  obtain ⟨hone, htwelve, hle, hlt⟩ := monthOfYearDay_valid leap yearDay (by omega)
  rcases Nat.lt_trichotomy (monthOfYearDay leap yearDay) month with h | h | h
  · have := daysBeforeMonth_add_le leap month (by omega) _ h hone
    omega
  · exact h
  · have := daysBeforeMonth_add_le leap _ (Nat.lt_succ_of_le htwelve) month h hmonth.1
    omega

theorem yearOfDay_toDay (d : Date) : yearOfDay d.toDay = d.year := by
  obtain ⟨hone, htwelve, hday, hlast⟩ := d.valid
  have hlength := daysBeforeMonth_add_le_yearLength (isLeapYear d.year) d.month (by omega) hone
  have hsucc := yearStart_succ d.year
  refine yearOfDay_eq ?_ ?_ <;> unfold toDay
  · omega
  · split at hlength <;> rename_i hleap
    · rw [if_pos hleap] at hsucc
      omega
    · rw [if_neg hleap] at hsucc
      omega

theorem yearDayOf_toDay (d : Date) :
    yearDayOf d.toDay = daysBeforeMonth (isLeapYear d.year) d.month + (d.day - 1) := by
  have hday := d.valid.2.2.1
  rw [yearDayOf, yearOfDay_toDay, toDay]
  omega

theorem monthOfYearDay_toDay (d : Date) :
    monthOfYearDay (isLeapYear d.year) (yearDayOf d.toDay) = d.month := by
  obtain ⟨hone, htwelve, hday, hlast⟩ := d.valid
  rw [yearDayOf_toDay]
  exact monthOfYearDay_eq ⟨hone, htwelve⟩ (by omega) (by omega)

theorem eq_of_parts {d e : Date} (hyear : d.year = e.year) (hmonth : d.month = e.month)
    (hday : d.day = e.day) : d = e := by
  rcases d with ⟨year, month, day, _⟩
  rcases e with ⟨year', month', day', _⟩
  obtain rfl : year = year' := hyear
  obtain rfl : month = month' := hmonth
  obtain rfl : day = day' := hday
  rfl

/-- A date is the one date of its day number. -/
theorem ofDay_toDay (d : Date) : ofDay d.toDay = d := by
  have hday := d.valid.2.2.1
  have hyear : (ofDay d.toDay).year = d.year := yearOfDay_toDay d
  have hmonth : (ofDay d.toDay).month = d.month := by
    show monthOfYearDay (isLeapYear (yearOfDay d.toDay)) (yearDayOf d.toDay) = d.month
    rw [yearOfDay_toDay, monthOfYearDay_toDay]
  refine eq_of_parts hyear hmonth ?_
  show yearDayOf d.toDay - daysBeforeMonth (isLeapYear (yearOfDay d.toDay))
    (monthOfYearDay (isLeapYear (yearOfDay d.toDay)) (yearDayOf d.toDay)) + 1 = d.day
  rw [yearOfDay_toDay, monthOfYearDay_toDay, yearDayOf_toDay]
  omega

theorem ofDay_eq {d : Date} {day : Int} (h : d.toDay = day) : ofDay day = d :=
  h ▸ ofDay_toDay d

theorem yearOfDay_mono {day day' : Int} (h : day ≤ day') : yearOfDay day ≤ yearOfDay day' := by
  have hle := yearStart_yearOfDay_le day
  have hlt := lt_yearStart_yearOfDay_succ day'
  refine Int.not_lt.1 fun hyear => ?_
  have := yearStart_mono (Int.add_one_le_of_lt hyear)
  omega

/-! ## First days -/

/-- A day of the same month that many days before. -/
theorem day_ofDay_sub {day : Int} {n : Nat} (h : n < (ofDay day).day) :
    (ofDay (day - n)).day = (ofDay day).day - n := by
  obtain ⟨hone, htwelve, hday, hlast⟩ := (ofDay day).valid
  have hvalid : 1 ≤ (ofDay day).month ∧ (ofDay day).month ≤ 12 ∧ 1 ≤ (ofDay day).day - n ∧
      (ofDay day).day - n ≤ monthLength (isLeapYear (ofDay day).year) (ofDay day).month :=
    ⟨hone, htwelve, by omega, by omega⟩
  have hdays : toDay ⟨(ofDay day).year, (ofDay day).month, (ofDay day).day - n, hvalid⟩
      = day - n := by
    have := toDay_ofDay day
    simp only [toDay] at this ⊢
    omega
  rw [ofDay_eq hdays]

theorem day_ofDay_first (day : Int) : (ofDay (day - ((ofDay day).day - 1 : Nat))).day = 1 := by
  have hday := (ofDay day).valid.2.2.1
  rw [day_ofDay_sub (by omega)]
  omega

/-- No first of a month lies between that of a day's month and the day. -/
theorem le_first_of_day_eq_one {first day : Int} (hfirst : (ofDay first).day = 1)
    (hle : first ≤ day) : first ≤ day - ((ofDay day).day - 1 : Nat) := by
  refine Int.not_lt.1 fun hlt => ?_
  have hsub : (ofDay (day - (day - first).toNat)).day = (ofDay day).day - (day - first).toNat :=
    day_ofDay_sub (by omega)
  have hsame : day - (day - first).toNat = first := by omega
  rw [hsame, hfirst] at hsub
  omega

/-- The first of January is the first day of its year. -/
theorem ofDay_yearStart (year : Int) :
    (ofDay (yearStart year)).year = year ∧ (ofDay (yearStart year)).month = 1 ∧
      (ofDay (yearStart year)).day = 1 := by
  have hvalid : 1 ≤ 1 ∧ 1 ≤ 12 ∧ 1 ≤ 1 ∧ 1 ≤ monthLength (isLeapYear year) 1 := by
    simp [monthLength]
  have hday : toDay ⟨year, 1, 1, hvalid⟩ = yearStart year := by
    simp [toDay, daysBeforeMonth]
  rw [ofDay_eq hday]
  exact ⟨rfl, rfl, rfl⟩

theorem eq_yearStart {day : Int} (hmonth : (ofDay day).month = 1) (hday : (ofDay day).day = 1) :
    day = yearStart (yearOfDay day) := by
  have h := toDay_ofDay day
  rw [toDay, hmonth, hday] at h
  have hyear : (ofDay day).year = yearOfDay day := rfl
  simpa [daysBeforeMonth, hyear] using h.symm

theorem le_yearStart_of_first {first day : Int} (hmonth : (ofDay first).month = 1)
    (hday : (ofDay first).day = 1) (hle : first ≤ day) : first ≤ yearStart (yearOfDay day) := by
  rw [eq_yearStart hmonth hday]
  exact yearStart_mono (yearOfDay_mono hle)

end Date

end RecordQuery
