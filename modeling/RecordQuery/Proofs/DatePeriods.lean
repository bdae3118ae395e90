import RecordQuery.Proofs.AllowList
import RecordQuery.Proofs.DateKeys

/-!
# A key of a unit stands for one period

Keys of a unit are the texts of the starts of units, and these are all different, in the years that
are written with a sign as well. So two values have one key exactly if they stand for instants of
one period, in whatever form they give them (`Level.keyOf_eq_iff_of_unit`).
-/

namespace RecordQuery

open Json

namespace Level

variable {unit : DateUnit} {settings : Settings}

theorem nano_of_unitStart? {v : Value} {start : Instant}
    (h : unitStart? unit settings v = some start) : start.nano = 0 :=
  (isStart_of_unitStart? h).1

theorem unitStart?_eq_none {v : Value} :
    unitStart? unit settings v = none ↔
      v.instant? = none ∨ ∃ t, v.instant? = some t ∧
        unit.truncate? t settings.weekStart = none := by
  unfold unitStart?
  rcases v.instant? with _ | t
  · simp
  · simp

/-- A start is lost only if it comes before all instants. -/
theorem unitStart?_eq_none_iff (v : Value) :
    unitStart? unit settings v = none ↔
      v.instant? = none ∨ ∃ t, v.instant? = some t ∧
        ∃ second, IsGreatest (DateUnit.startsUpTo settings.weekStart t unit) second ∧
          second < yearStart Instant.firstYear * 86400 := by
  rw [unitStart?_eq_none]
  refine or_congr_right (exists_congr fun t => and_congr_right fun _ => ?_)
  have hgreatest := DateUnit.isGreatest_startSecond settings.weekStart t unit
  rw [DateUnit.truncate?_eq_none]
  constructor
  · exact fun h => ⟨_, hgreatest, h⟩
  · rintro ⟨second, hsecond, h⟩
    rwa [hsecond.unique hgreatest] at h

section Unit

variable {level : Level} (hunit : level.unit = some unit)
include hunit

theorem keyOf_eq_iff_unitStart? {a b : Value} {s t : Instant}
    (ha : unitStart? unit settings a = some s) (hb : unitStart? unit settings b = some t) :
    level.keyOf settings (some a) = level.keyOf settings (some b) ↔ s = t := by
  rw [keyOf_of_unit hunit, keyOf_of_unit hunit, Option.bind_some, Option.bind_some, ha, hb,
    Option.map_some, Option.map_some]
  constructor
  · intro h
    have htext : s.toText = t.toText := Value.text.inj (Option.some.inj h)
    have hs : s.nano % 1000000 = 0 := by rw [nano_of_unitStart? ha]
    have ht : t.nano % 1000000 = 0 := by rw [nano_of_unitStart? hb]
    exact Instant.toText_injective hs ht htext
  · rintro rfl
    rfl

/-- Keys of a unit are in canonical form already. -/
theorem canonicalForm_keyOf_eq_iff {a b : Option Value} :
    canonicalForm (level.keyOf settings a) = canonicalForm (level.keyOf settings b) ↔
      level.keyOf settings a = level.keyOf settings b := by
  have hkeyed : level.unit ≠ none ∨ level.interval ≠ none := by
    left
    rw [hunit]
    exact Option.some_ne_none unit
  constructor
  · exact eq_of_canonicalForm_eq (fun _ => keyed_of_keyOf hkeyed) (fun _ => keyed_of_keyOf hkeyed)
  · exact congrArg canonicalForm

/-- Two values have one key under a unit, and one canonical form of it, if and only if the unit
around their instants starts at one instant. There is no key if and only if there is no value, or it
stands for no instant, or the unit around that starts before all instants. -/
theorem keyOf_eq_iff_of_unit (settings : Settings) :
    (∀ (a b : Value) (s t s' t' : Instant), a.instant? = some s → b.instant? = some t →
      unit.truncate? s settings.weekStart = some s' →
      unit.truncate? t settings.weekStart = some t' →
        (level.keyOf settings (some a) = level.keyOf settings (some b) ↔ s' = t') ∧
        (canonicalForm (level.keyOf settings (some a))
          = canonicalForm (level.keyOf settings (some b)) ↔ s' = t')) ∧
    ∀ raw : Option Value, level.keyOf settings raw = none ↔
      ∀ v ∈ raw, v.instant? = none ∨ ∃ t, v.instant? = some t ∧
        ∃ second, IsGreatest (DateUnit.startsUpTo settings.weekStart t unit) second ∧
          second < yearStart Instant.firstYear * 86400 := by
  constructor
  · intro a b s t s' t' ha hb hs ht
    have ha' : unitStart? unit settings a = some s' := by
      rw [unitStart?, ha, Option.bind_some, hs]
    have hb' : unitStart? unit settings b = some t' := by
      rw [unitStart?, hb, Option.bind_some, ht]
    have hkey := keyOf_eq_iff_unitStart? hunit ha' hb'
    exact ⟨hkey, (canonicalForm_keyOf_eq_iff hunit).trans hkey⟩
  · intro raw
    rw [keyOf_of_unit hunit, Option.map_eq_none_iff, Option.bind_eq_none_iff]
    exact forall₂_congr fun v _ => unitStart?_eq_none_iff v

end Unit

/-- Half an hour after midnight on the first of January of the year 0, two hours ahead of UTC, lies
in the last day of the year before, which is written with a sign. -/
theorem keyOf_eq_iff_of_unit_signed_year :
    let level : Level := { field := ⟨"at"⟩, unit := some .day }
    let settings := Settings.ofNow ⟨0, 0, by decide⟩
    let ahead : Value := .text "0000-01-01T00:30:00+02:00"
    let day : Value := .text "-1-12-31"
    level.keyOf settings (some ahead) = level.keyOf settings (some day) ∧
      canonicalForm (level.keyOf settings (some ahead))
        = canonicalForm (level.keyOf settings (some day)) ∧
      level.keyOf settings (some (.text "-1-12-32")) = none := by
  intro level settings ahead day
  obtain ⟨hiff, hnone⟩ := keyOf_eq_iff_of_unit (show level.unit = some .day from rfl) settings
  let start : Instant := ⟨-62167305600, 0, by decide⟩
  have hahead : ahead.instant? = some ⟨-62167224600, 0, by decide⟩ := by decide +kernel
  have hday : day.instant? = some start := by decide +kernel
  obtain ⟨hkey, hform⟩ := hiff ahead day _ start start start hahead hday
    (by decide +kernel) (by decide +kernel)
  refine ⟨hkey.2 rfl, hform.2 rfl, (hnone _).2 fun v hv => .inl ?_⟩
  obtain rfl := Option.some.inj hv
  decide +kernel

end Level

end RecordQuery
