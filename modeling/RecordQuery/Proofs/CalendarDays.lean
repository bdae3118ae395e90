import RecordQuery.Calendar.Instant

/-!
# Days before an instant

The day that lies some days before an instant depends on the day of the instant alone
(`Instant.map_day_daysBefore?`), if the instant is no leap second. The time of day is kept, so
either every instant of a day has one that many days before it or none has.
-/

namespace RecordQuery

namespace Instant

/-- A day on which there are instants. -/
abbrev IsSupportedDay (day : Int) : Prop :=
  yearStart firstYear ≤ day ∧ day < yearStart (lastYear + 1)

theorem yearStart_firstYear : yearStart firstYear = -96465292 := by
  decide

theorem yearStart_lastYear_succ : yearStart (lastYear + 1) = 95026237 := by
  decide

theorem isSupportedDay_day (t : Instant) : IsSupportedDay t.day := by
  obtain ⟨hfirst, hlast, -⟩ := t.supported
  rw [IsSupportedDay, day]
  omega

theorem map_day_daysBefore? {t : Instant} (hleap : t.isLeapSecond = false) (days : Int) :
    (t.daysBefore? days).map day =
      if IsSupportedDay (t.day - days) then some (t.day - days) else none := by
  have hnano : t.nano < 1000000000 := by simpa [isLeapSecond] using hleap
  by_cases hdays : days = 0
  · rw [daysBefore?, if_pos hdays, hdays, Int.sub_zero, if_pos t.isSupportedDay_day]
    rfl
  · rw [daysBefore?, if_neg hdays]
    by_cases hday : IsSupportedDay (t.day - days)
    · have hsupported : Supported (t.second - days * 86400) t.nano := by
        rw [IsSupportedDay, day] at hday
        exact ⟨by omega, by omega, by omega, by omega⟩
      have hsame : (t.second - days * 86400) / 86400 = t.second / 86400 - days := by omega
      rw [of?, dif_pos hsupported, if_pos hday, Option.filter_some]
      simp only [isLeapSecond, Nat.not_le.2 hnano, decide_false, Bool.false_and, Bool.not_false,
        if_true, Option.map_some, day, hsame]
    · have hsupported : ¬ Supported (t.second - days * 86400) t.nano := by
        rintro ⟨hfirst, hlast, -⟩
        rw [IsSupportedDay, day] at hday
        omega
      rw [of?, dif_neg hsupported, if_neg hday]
      rfl

end Instant

end RecordQuery
