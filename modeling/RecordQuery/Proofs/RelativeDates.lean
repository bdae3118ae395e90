import Mathlib.Data.Int.Order.Basic
import RecordQuery.Proofs.Meaning
import RecordQuery.Proofs.SettingsCongr

/-!
# Relative dates compare days

An order condition with a relative date compiles if the day that many days before the day of now is
one on which there are instants. Its check then asks on which side of this day the day of a value
lies, so that times of day do not count (`Condition.compile_order_daysAgo`).
-/

namespace RecordQuery

open Json

/-- What an order operator asks of a day and the day of its operand. -/
def OrderOperator.AsksOfDays : OrderOperator → Int → Int → Prop
  | less, day, bound => day < bound
  | greater, day, bound => bound < day
  | atMost, day, bound => day ≤ bound
  | atLeast, day, bound => bound ≤ day

instance : ∀ (op : OrderOperator) (day bound : Int), Decidable (op.AsksOfDays day bound)
  | .less, day, bound => inferInstanceAs (Decidable (day < bound))
  | .greater, day, bound => inferInstanceAs (Decidable (bound < day))
  | .atMost, day, bound => inferInstanceAs (Decidable (day ≤ bound))
  | .atLeast, day, bound => inferInstanceAs (Decidable (bound ≤ day))

theorem OrderOperator.accepts_compare_iff (op : OrderOperator) (day bound : Int) :
    op.accepts (compare day bound) = true ↔ op.AsksOfDays day bound := by
  rw [accepts_iff]
  cases op with
  | less => exact compare_lt_iff_lt
  | greater => exact compare_gt_iff_gt
  | atMost => exact compare_le_iff_le
  | atLeast => exact compare_ge_iff_ge

/-- A blank value stands for no instant. -/
theorem Json.Value.instant?_of_isBlank {v : Value} (h : v.isBlank = true) : v.instant? = none := by
  cases v with
  | text s =>
    obtain rfl : s = "" := String.isEmpty_iff.1 h
    decide
  | null => rfl
  | boolean | number | list | object => cases h

theorem Bound.admits_day_iff (op : OrderOperator) (bound : Int) (v : Value) :
    (Bound.day bound).admits op v = true ↔
      ∃ t, v.instant? = some t ∧ op.AsksOfDays t.day bound := by
  rw [Bound.admits]
  rcases hinstant : v.instant? with _ | t
  · simp
  · have hblank : v.isBlank = false := by
      by_contra h
      rw [Value.instant?_of_isBlank (Bool.not_eq_false _ ▸ h)] at hinstant
      cases hinstant
    simp [hblank, OrderOperator.accepts_compare_iff]

namespace Condition

variable {settings : Settings}

/-- A relative date is resolved to the day that many days before the day of now. -/
theorem compile_order_daysAgo_eq (hleap : settings.now.isLeapSecond = false) (op : OrderOperator)
    (days : Int) :
    (order op (.daysAgo days)).compile settings =
      if Instant.IsSupportedDay (settings.now.day - days) then
        .ok (.order op (.day (settings.now.day - days)))
      else .error (.invalidOperand (.order op) .dayInRange (Operand.daysAgo days).kindName) := by
  rw [compile, Operand.bound_daysAgo, Instant.map_day_daysBefore? hleap]
  split_ifs <;> rfl

/-- An order condition with a relative date compiles if and only if its day is supported. A value
then passes if and only if it stands for an instant whose day is on the side of that day which the
operator asks for. So neither the time of day of now matters nor that of the value. -/
theorem compile_order_daysAgo (settings : Settings) (hleap : settings.now.isLeapSecond = false)
    (op : OrderOperator) (days : Int) :
    ((∃ check, (order op (.daysAgo days)).compile settings = .ok check) ↔
      Instant.IsSupportedDay (settings.now.day - days)) ∧
    (∀ check, (order op (.daysAgo days)).compile settings = .ok check → ∀ v : Value,
      check.passes [v] = true ↔
        ∃ t, v.instant? = some t ∧ op.AsksOfDays t.day (settings.now.day - days)) ∧
    (∀ other : Settings, other.now.isLeapSecond = false → other.now.day = settings.now.day →
      (order op (.daysAgo days)).compile other = (order op (.daysAgo days)).compile settings) ∧
    ∀ check, (order op (.daysAgo days)).compile settings = .ok check →
      ∀ (v w : Value) (s t : Instant), v.instant? = some s → w.instant? = some t →
        s.day = t.day → check.passes [v] = check.passes [w] := by
  have hpasses : ∀ check, (order op (.daysAgo days)).compile settings = .ok check → ∀ v : Value,
      check.passes [v] = true ↔
        ∃ t, v.instant? = some t ∧ op.AsksOfDays t.day (settings.now.day - days) := by
    intro check h v
    rw [compile_order_daysAgo_eq hleap] at h
    split_ifs at h
    obtain rfl := Except.ok.inj h
    rw [Check.passes_order_singleton, Bound.admits_day_iff]
  refine ⟨?_, hpasses, fun other hother hday => ?_, fun check h v w s t hs ht hday => ?_⟩
  · rw [compile_order_daysAgo_eq hleap]
    split_ifs with hsupported
    · exact iff_of_true ⟨_, rfl⟩ hsupported
    · exact iff_of_false (fun ⟨_, h⟩ => by cases h) hsupported
  · rw [compile_order_daysAgo_eq hleap, compile_order_daysAgo_eq hother, hday]
  · rw [Bool.eq_iff_iff, hpasses check h, hpasses check h, hs, ht]
    simp [hday]

/-- In the last moment of 2024-03-10, an hour after midnight there, two hours ahead of UTC, still
lies in the day before. The least signed word counts days too far ahead. -/
theorem compile_order_daysAgo_day_before :
    let settings := Settings.ofNow ⟨1710115199, 999999999, by decide⟩
    let v : Value := .text "2024-03-10T01:00:00+02:00"
    settings.now.isLeapSecond = false ∧
      (∃ check, (order .atMost (.daysAgo 1)).compile settings = .ok check ∧
        check.passes [v] = true) ∧
      (∃ check, (order .less (.daysAgo 1)).compile settings = .ok check ∧
        ¬ check.passes [v] = true) ∧
      ¬ ∃ check, (order .less (.daysAgo (-9223372036854775808))).compile settings = .ok check := by
  intro settings v
  have hleap : settings.now.isLeapSecond = false := by decide
  have hinstant : v.instant? = some ⟨1710025200, 0, by decide⟩ := by decide +kernel
  obtain ⟨hcompiles, hpasses, -⟩ := compile_order_daysAgo settings hleap .atMost 1
  obtain ⟨hcompiles', hpasses', -⟩ := compile_order_daysAgo settings hleap .less 1
  obtain ⟨check, h⟩ := hcompiles.2 (by decide)
  obtain ⟨check', h'⟩ := hcompiles'.2 (by decide)
  refine ⟨hleap, ⟨check, h, ?_⟩, ⟨check', h', ?_⟩, ?_⟩
  · exact (hpasses check h v).2 ⟨_, hinstant, by decide⟩
  · rw [hpasses' check' h' v]
    rintro ⟨t, ht, hday⟩
    obtain rfl := Option.some.inj (hinstant.symm.trans ht)
    exact absurd hday (by decide)
  · rw [(compile_order_daysAgo settings hleap .less _).1]
    decide

end Condition

end RecordQuery
