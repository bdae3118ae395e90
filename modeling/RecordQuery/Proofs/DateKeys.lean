import RecordQuery.Bucket.Grouping
import RecordQuery.Proofs.TimestampText
import RecordQuery.Proofs.Truncation

/-!
# Keys of a unit

The key of a value under a unit is the text of the start of the unit around its instant. That text
is a value again, and where its instant is read the start is kept, so that the key of the key is the
key itself. A start in a year that is written with a sign cannot be read, and its key has no key.
-/

namespace RecordQuery

open Json

namespace Level

variable {unit : DateUnit} {settings : Settings}

/-- The start of the unit around the instant of a value. -/
def unitStart? (unit : DateUnit) (settings : Settings) (v : Value) : Option Instant :=
  v.instant?.bind fun t => unit.truncate? t settings.weekStart

theorem unitKey_eq_map (v : Value) :
    unitKey unit settings v = (unitStart? unit settings v).map fun start => .text start.toText := by
  unfold unitKey unitStart?
  rcases v.instant? with _ | t
  · rfl
  · simp only [Option.bind_eq_bind, Option.bind_some, Option.pure_def, Option.map_eq_bind]
    rfl

theorem isStart_of_unitStart? {v : Value} {start : Instant}
    (h : unitStart? unit settings v = some start) : unit.IsStart settings.weekStart start := by
  obtain ⟨t, -, hstart⟩ := Option.bind_eq_some_iff.1 h
  exact DateUnit.isStart_of_truncate? hstart

/-- A start is found again from its text if its year is read. -/
theorem unitStart?_toText {start : Instant} (h : unit.IsStart settings.weekStart start) :
    unitStart? unit settings (.text start.toText)
      = if (Date.ofDay start.day).HasPlainYear then some start else none := by
  have hnano : start.nano % 1000000 = 0 := by rw [h.1]
  have hread : (Value.text start.toText).instant? = Instant.ofText? start.toText := rfl
  unfold unitStart?
  rw [hread, Instant.ofText?_toText start hnano]
  split_ifs
  · rw [Option.bind_some, DateUnit.truncate?_of_isStart h]
  · rfl

section Unit

variable {level : Level} (hunit : level.unit = some unit)
include hunit

/-- Under a unit, null is a value like others that stand for no instant. -/
theorem keyOf_of_unit (settings : Settings) (raw : Option Value) :
    level.keyOf settings raw
      = (raw.bind (unitStart? unit settings)).map fun start => .text start.toText := by
  have hvalue : level.keyOfValue settings = unitKey unit settings := by
    funext v
    unfold keyOfValue
    rw [hunit]
  unfold keyOf
  rw [hvalue]
  rcases raw with _ | v
  · rfl
  · rw [Option.bind_some, ← unitKey_eq_map]
    cases v <;> rfl

/-- The key of a value is the text of the start of the unit around its instant. That is its own key
if the start lies in one of the years 0 to 9999, and has none if it does not. -/
theorem keyOf_keyOf_of_unit (settings : Settings) {raw : Option Value} {key : Value}
    (h : level.keyOf settings raw = some key) :
    ∃ start, raw.bind (unitStart? unit settings) = some start ∧ key = .text start.toText ∧
      level.keyOf settings (some key)
        = if (Date.ofDay start.day).HasPlainYear then some key else none := by
  rw [keyOf_of_unit hunit, Option.map_eq_some_iff] at h
  obtain ⟨start, hstart, rfl⟩ := h
  refine ⟨start, hstart, rfl, ?_⟩
  obtain ⟨v, -, hv⟩ := Option.bind_eq_some_iff.1 hstart
  rw [keyOf_of_unit hunit, Option.bind_some, unitStart?_toText (isStart_of_unitStart? hv)]
  split_ifs <;> rfl

end Unit

/-- A time on 2024-03-10 has the key of its month, and that is the key of the key. -/
theorem keyOf_keyOf_of_unit_march :
    let level : Level := { field := ⟨"at"⟩, unit := some .month }
    let settings := Settings.ofNow ⟨0, 0, by decide⟩
    let march : Instant := ⟨1709251200, 0, by decide⟩
    march.toText = "2024-03-01T00:00:00.000Z" ∧
      level.keyOf settings (some (.text "2024-03-10T15:30:00+02:00"))
        = some (.text march.toText) ∧
      level.keyOf settings (some (.text march.toText)) = some (.text march.toText) := by
  intro level settings march
  have hstart : unitStart? .month settings (.text "2024-03-10T15:30:00+02:00") = some march := by
    decide +kernel
  have hkey : level.keyOf settings (some (.text "2024-03-10T15:30:00+02:00"))
      = some (.text march.toText) := by
    rw [keyOf_of_unit rfl, Option.bind_some, hstart, Option.map_some]
  obtain ⟨start, hfound, -, hkeyed⟩ := keyOf_keyOf_of_unit rfl settings hkey
  obtain rfl : march = start := Option.some.inj (hstart.symm.trans hfound)
  rw [if_pos (by decide +kernel)] at hkeyed
  exact ⟨by decide +kernel, hkey, hkeyed⟩

/-- The first year after 9999 is written with a sign, and its key has no key. -/
theorem keyOf_keyOf_ne_signed_year :
    let level : Level := { field := ⟨"at"⟩, unit := some .year }
    let settings := Settings.ofNow ⟨0, 0, by decide⟩
    let key : Value := .text "+10000-01-01T00:00:00.000Z"
    level.keyOf settings (some (.int 253402300800000)) = some key ∧
      level.keyOf settings (some key) = none := by
  intro level settings key
  have hstart : unitStart? .year settings (.int 253402300800000)
      = some ⟨253402300800, 0, by decide⟩ := by decide +kernel
  have htext : (⟨253402300800, 0, by decide⟩ : Instant).toText = "+10000-01-01T00:00:00.000Z" := by
    decide +kernel
  have hnone : unitStart? .year settings key = none := by decide +kernel
  constructor
  · rw [keyOf_of_unit rfl, Option.bind_some, hstart, Option.map_some, htext]
  · rw [keyOf_of_unit rfl, Option.bind_some, hnone, Option.map_none]

end Level

end RecordQuery
