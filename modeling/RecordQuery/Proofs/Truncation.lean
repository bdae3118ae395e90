import Mathlib.Order.Bounds.Basic
import RecordQuery.Calendar.Unit
import RecordQuery.Proofs.CivilDates

/-!
# Truncation is a floor

A unit starts with certain seconds, and truncating an instant finds the last of them that is not
after it (`DateUnit.isGreatest_startSecond`, one case for each unit). All else follows from that:
the start of a unit is kept, later instants have later starts, and a unit whose starts are starts of
a finer one can be found from there. The supported instants begin with a year, so that only the
start of a week can lie before them.
-/

namespace RecordQuery

namespace Instant

/-! ## Order of instants -/

instance : LE Instant where
  le s t := (s.compare t).isLE = true

instance : LT Instant where
  lt s t := s.compare t = .lt

theorem lt_iff {s t : Instant} :
    s < t ↔ s.second < t.second ∨ s.second = t.second ∧ s.nano < t.nano := by
  show s.compare t = .lt ↔ _
  rw [compare, Ordering.then_eq_lt, compare_lt_iff_lt, compare_eq_iff_eq, compare_lt_iff_lt]

theorem le_iff {s t : Instant} :
    s ≤ t ↔ s.second < t.second ∨ s.second = t.second ∧ s.nano ≤ t.nano := by
  show (s.compare t).isLE = true ↔ _
  rw [Ordering.isLE_iff_ne_gt, compare, Ordering.then_eq_gt, compare_gt_iff_gt,
    compare_eq_iff_eq, compare_gt_iff_gt]
  omega

theorem of?_eq_some {second : Int} {nano : Nat} {s : Instant} :
    of? second nano = some s ↔ s.second = second ∧ s.nano = nano := by
  constructor
  · intro h
    unfold of? at h
    split_ifs at h
    obtain rfl := Option.some.inj h
    exact ⟨rfl, rfl⟩
  · rintro ⟨rfl, rfl⟩
    rw [of?, dif_pos s.supported]

theorem of?_eq_none {second : Int} {nano : Nat} :
    of? second nano = none ↔ ¬ Supported second nano := by
  unfold of?
  split_ifs with h
  · exact iff_of_false (fun hnone => by cases hnone) (not_not_intro h)
  · exact iff_of_true rfl h

end Instant

theorem Weekday.index_lt (day : Weekday) : day.index < 7 := by
  cases day <;> decide

namespace DateUnit

/-! ## Starts of units -/

/-- Whether a unit starts with a second. -/
def StartsAt (weekStart : Weekday) (second : Int) : DateUnit → Prop
  | hour => second % 3600 = 0
  | day => second % 86400 = 0
  | week => second % 86400 = 0 ∧ Weekday.indexOfDay (second / 86400) = weekStart.index
  | month => second % 86400 = 0 ∧ (Date.ofDay (second / 86400)).day = 1
  | year => second % 86400 = 0 ∧ (Date.ofDay (second / 86400)).month = 1 ∧
      (Date.ofDay (second / 86400)).day = 1

variable (weekStart : Weekday)

/-- The seconds up to an instant with which a unit starts. -/
def startsUpTo (t : Instant) (unit : DateUnit) : Set Int :=
  {second | unit.StartsAt weekStart second ∧ second ≤ t.second}

/-- What truncating finds is the last start of the unit up to the instant. -/
theorem isGreatest_startSecond (t : Instant) : ∀ unit : DateUnit,
    IsGreatest (startsUpTo weekStart t unit) (startSecond weekStart t unit)
  | hour => by
    refine ⟨⟨?_, ?_⟩, fun second h => ?_⟩
    · simp only [StartsAt, startSecond]
      omega
    · simp only [startSecond]
      omega
    · obtain ⟨hstart, hle⟩ := h
      simp only [StartsAt, startSecond] at hstart ⊢
      omega
  | day => by
    refine ⟨⟨?_, ?_⟩, fun second h => ?_⟩
    · simp only [StartsAt, startSecond]
      omega
    · simp only [startSecond, Instant.day]
      omega
    · obtain ⟨hstart, hle⟩ := h
      simp only [StartsAt, startSecond, Instant.day] at hstart ⊢
      omega
  | week => by
    have hindex := weekStart.index_lt
    refine ⟨⟨?_, ?_⟩, fun second h => ?_⟩
    · simp only [StartsAt, startSecond, Weekday.indexOfDay, Instant.day]
      omega
    · simp only [startSecond, Weekday.indexOfDay, Instant.day]
      omega
    · obtain ⟨hstart, hle⟩ := h
      simp only [StartsAt, startSecond, Weekday.indexOfDay, Instant.day] at hstart ⊢
      omega
  | month => by
    have hday : (t.day - ((Date.ofDay t.day).day - 1 : Nat)) * 86400 / 86400
        = t.day - ((Date.ofDay t.day).day - 1 : Nat) := Int.mul_ediv_cancel _ (by decide)
    refine ⟨⟨⟨Int.mul_emod_left _ _, ?_⟩, ?_⟩, fun second h => ?_⟩
    · rw [startSecond, hday]
      exact Date.day_ofDay_first t.day
    · simp only [startSecond, Instant.day]
      omega
    · obtain ⟨⟨hmidnight, hfirst⟩, hle⟩ := h
      have hday : second / 86400 ≤ t.day := Int.ediv_le_ediv (by decide) hle
      have := Date.le_first_of_day_eq_one hfirst hday
      simp only [startSecond]
      omega
  | year => by
    have hday : yearStart (Date.yearOfDay t.day) * 86400 / 86400
        = yearStart (Date.yearOfDay t.day) := Int.mul_ediv_cancel _ (by decide)
    refine ⟨⟨⟨Int.mul_emod_left _ _, ?_⟩, ?_⟩, fun second h => ?_⟩
    · rw [startSecond, hday]
      exact (Date.ofDay_yearStart _).2
    · have := Date.yearStart_yearOfDay_le t.day
      simp only [startSecond, Instant.day] at this ⊢
      omega
    · obtain ⟨⟨hmidnight, hmonth, hfirst⟩, hle⟩ := h
      have hday : second / 86400 ≤ t.day := Int.ediv_le_ediv (by decide) hle
      have := Date.le_yearStart_of_first hmonth hfirst hday
      simp only [startSecond]
      omega

/-! ## Truncating -/

/-- Whether a unit starts with an instant. -/
def IsStart (weekStart : Weekday) (s : Instant) (unit : DateUnit) : Prop :=
  s.nano = 0 ∧ unit.StartsAt weekStart s.second

variable {weekStart} {unit : DateUnit} {s t : Instant}

theorem truncate?_eq_some :
    unit.truncate? t weekStart = some s ↔ s.second = startSecond weekStart t unit ∧ s.nano = 0 :=
  Instant.of?_eq_some

theorem startSecond_le : startSecond weekStart t unit ≤ t.second :=
  (isGreatest_startSecond weekStart t unit).1.2

theorem le_startSecond {second : Int} (hstart : unit.StartsAt weekStart second)
    (hle : second ≤ t.second) : second ≤ startSecond weekStart t unit :=
  (isGreatest_startSecond weekStart t unit).2 ⟨hstart, hle⟩

/-- There is no start among the instants if the last one up to `t` comes before all of them. -/
theorem truncate?_eq_none :
    unit.truncate? t weekStart = none ↔
      startSecond weekStart t unit < yearStart Instant.firstYear * 86400 := by
  have hle : startSecond weekStart t unit ≤ t.second := startSecond_le
  have ht := t.supported
  rw [truncate?, Instant.of?_eq_none, Instant.Supported]
  omega

/-- The first second of all starts a year, and so every unit but perhaps a week. -/
theorem startsAt_first (h : unit ≠ week) :
    unit.StartsAt weekStart (yearStart Instant.firstYear * 86400) := by
  have hday : yearStart Instant.firstYear * 86400 / 86400 = yearStart Instant.firstYear :=
    Int.mul_ediv_cancel _ (by decide)
  obtain ⟨-, hmonth, hfirst⟩ := Date.ofDay_yearStart Instant.firstYear
  cases unit with
  | week => exact absurd rfl h
  | hour =>
    show yearStart Instant.firstYear * 86400 % 3600 = 0
    omega
  | day => exact Int.mul_emod_left _ _
  | month => exact ⟨Int.mul_emod_left _ _, hday.symm ▸ hfirst⟩
  | year => exact ⟨Int.mul_emod_left _ _, hday.symm ▸ hmonth, hday.symm ▸ hfirst⟩

theorem isSome_truncate? (h : unit ≠ week) (t : Instant) (weekStart : Weekday) :
    (unit.truncate? t weekStart).isSome := by
  rw [Option.isSome_iff_ne_none, ne_eq, truncate?_eq_none, Int.not_lt]
  exact le_startSecond (startsAt_first h) t.supported.1

theorem truncate?_eq_none_iff :
    unit.truncate? t weekStart = none ↔
      unit = week ∧ ∃ second, IsGreatest (startsUpTo weekStart t week) second ∧
        second < yearStart Instant.firstYear * 86400 := by
  constructor
  · intro h
    have hweek : unit = week := by
      by_contra hne
      simp [Option.isSome_iff_ne_none.1 (isSome_truncate? hne t weekStart)] at h
    subst hweek
    exact ⟨rfl, _, isGreatest_startSecond weekStart t week, truncate?_eq_none.1 h⟩
  · rintro ⟨rfl, second, hgreatest, h⟩
    rw [truncate?_eq_none]
    rwa [← hgreatest.unique (isGreatest_startSecond weekStart t week)]

/-- The start of a unit is kept. -/
theorem truncate?_of_isStart (h : unit.IsStart weekStart s) :
    unit.truncate? s weekStart = some s := by
  obtain ⟨hnano, hstart⟩ := h
  refine truncate?_eq_some.2 ⟨?_, hnano⟩
  exact Int.le_antisymm (le_startSecond hstart (Int.le_refl _)) startSecond_le

section Floor

variable (h : unit.truncate? t weekStart = some s)
include h

theorem isStart_of_truncate? : unit.IsStart weekStart s := by
  obtain ⟨hsecond, hnano⟩ := truncate?_eq_some.1 h
  refine ⟨hnano, ?_⟩
  rw [hsecond]
  exact (isGreatest_startSecond weekStart t unit).1.1

theorem le_of_truncate? : s ≤ t := by
  obtain ⟨hsecond, hnano⟩ := truncate?_eq_some.1 h
  have hle : startSecond weekStart t unit ≤ t.second := startSecond_le
  exact Instant.le_iff.2 (by omega)

theorem not_isStart_after {b : Instant} (hb : unit.IsStart weekStart b) :
    ¬ (s < b ∧ b ≤ t) := by
  obtain ⟨hsecond, hnano⟩ := truncate?_eq_some.1 h
  obtain ⟨hbnano, hstart⟩ := hb
  rintro ⟨hlt, hle⟩
  rw [Instant.lt_iff] at hlt
  rw [Instant.le_iff] at hle
  have := le_startSecond (t := t) hstart (by omega)
  omega

end Floor

theorem startSecond_mono (h : s.second ≤ t.second) :
    startSecond weekStart s unit ≤ startSecond weekStart t unit :=
  le_startSecond (isGreatest_startSecond weekStart s unit).1.1 (Int.le_trans startSecond_le h)

theorem truncate?_mono {s' t' : Instant} (hle : t ≤ t')
    (h : unit.truncate? t weekStart = some s) (h' : unit.truncate? t' weekStart = some s') :
    s ≤ s' := by
  obtain ⟨hsecond, hnano⟩ := truncate?_eq_some.1 h
  obtain ⟨hsecond', hnano'⟩ := truncate?_eq_some.1 h'
  rw [Instant.le_iff] at hle
  have : startSecond weekStart t unit ≤ startSecond weekStart t' unit :=
    startSecond_mono (by omega)
  exact Instant.le_iff.2 (by omega)

/-- A unit whose starts are starts of a finer one starts at the same time around the start of
that. -/
theorem startSecond_of_refines {fine coarse : DateUnit}
    (h : ∀ second, coarse.StartsAt weekStart second → fine.StartsAt weekStart second)
    (hs : s.second = startSecond weekStart t fine) :
    startSecond weekStart s coarse = startSecond weekStart t coarse := by
  have hstart := (isGreatest_startSecond weekStart t coarse).1
  refine Int.le_antisymm (startSecond_mono (hs ▸ startSecond_le)) ?_
  refine le_startSecond hstart.1 ?_
  rw [hs]
  exact le_startSecond (h _ hstart.1) hstart.2

/-- The units between which there is no other, the coarser one second. -/
inductive Finer : DateUnit → DateUnit → Prop
  | hour_day : Finer hour day
  | day_week : Finer day week
  | day_month : Finer day month
  | month_year : Finer month year

theorem Finer.refines {fine coarse : DateUnit} (h : Finer fine coarse) (second : Int)
    (hstart : coarse.StartsAt weekStart second) : fine.StartsAt weekStart second := by
  cases h with
  | hour_day =>
    simp only [StartsAt] at hstart ⊢
    omega
  | day_week | day_month => exact hstart.1
  | month_year => exact ⟨hstart.1, hstart.2.2⟩

theorem truncate?_of_finer {fine coarse : DateUnit} (hfiner : Finer fine coarse)
    (h : fine.truncate? t weekStart = some s) :
    coarse.truncate? s weekStart = coarse.truncate? t weekStart := by
  have hrefines : ∀ second, coarse.StartsAt weekStart second → fine.StartsAt weekStart second :=
    hfiner.refines
  have hsame := startSecond_of_refines hrefines (truncate?_eq_some.1 h).1
  rw [truncate?, truncate?, hsame]

/-- Truncating goes back to the start of the unit: none lies between it and the instant. There is a
start to go back to, unless it is that of a week which begins before all instants. So starts are
kept, later instants do not have earlier starts, and it is the same to truncate to a finer unit
first. -/
theorem truncate?_isFloor (weekStart : Weekday) :
    (∀ (unit : DateUnit) (t s : Instant), unit.truncate? t weekStart = some s →
      unit.IsStart weekStart s ∧ s ≤ t ∧
        ∀ b : Instant, unit.IsStart weekStart b → ¬ (s < b ∧ b ≤ t)) ∧
    (∀ (unit : DateUnit) (t : Instant), unit.truncate? t weekStart = none ↔
      unit = week ∧ ∃ second, IsGreatest (startsUpTo weekStart t week) second ∧
        second < yearStart Instant.firstYear * 86400) ∧
    (∀ (unit : DateUnit) (t s : Instant), unit.truncate? t weekStart = some s →
      unit.truncate? s weekStart = some s) ∧
    (∀ (unit : DateUnit) (t t' s s' : Instant), t ≤ t' → unit.truncate? t weekStart = some s →
      unit.truncate? t' weekStart = some s' → s ≤ s') ∧
    ∀ fine coarse : DateUnit, Finer fine coarse → ∀ t s : Instant,
      fine.truncate? t weekStart = some s →
        coarse.truncate? s weekStart = coarse.truncate? t weekStart := by
  refine ⟨fun unit t s h => ⟨isStart_of_truncate? h, le_of_truncate? h, ?_⟩, ?_, ?_, ?_, ?_⟩
  · exact fun b hb => not_isStart_after h hb
  · exact fun unit t => truncate?_eq_none_iff
  · exact fun unit t s h => truncate?_of_isStart (isStart_of_truncate? h)
  · exact fun unit t t' s s' hle h h' => truncate?_mono hle h h'
  · exact fun fine coarse hfiner t s h => truncate?_of_finer hfiner h

/-- The leap second at the end of 2016 lies in the hour from 23:00, and the hour in the same day. -/
theorem truncate?_isFloor_leap_second :
    let t : Instant := ⟨1483228799, 1000000000, by decide⟩
    let s : Instant := ⟨1483225200, 0, by decide⟩
    t.isLeapSecond = true ∧ hour.truncate? t .sunday = some s ∧
      hour.IsStart .sunday s ∧ s ≤ t ∧ hour.truncate? s .sunday = some s ∧
      day.truncate? s .sunday = day.truncate? t .sunday := by
  intro t s
  obtain ⟨hfloor, -, hkept, -, hfiner⟩ := truncate?_isFloor .sunday
  have h : hour.truncate? t .sunday = some s := by decide
  obtain ⟨hstart, hle, -⟩ := hfloor hour t s h
  exact ⟨rfl, h, hstart, hle, hkept hour t s h, hfiner hour day .hour_day t s h⟩

end DateUnit

end RecordQuery
