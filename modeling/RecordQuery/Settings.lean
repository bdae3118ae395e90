import RecordQuery.Calendar.Unit

/-!
# Settings of an evaluation
-/

namespace RecordQuery

/-- The instant that relative dates count from, and the day on which weeks start. -/
structure Settings where
  now : Instant
  weekStart : Weekday
deriving DecidableEq

namespace Settings

/-- Settings at an instant, with weeks that start on Monday. -/
def ofNow (now : Instant) : Settings :=
  ⟨now, .monday⟩

def withWeekStart (settings : Settings) (day : Weekday) : Settings :=
  { settings with weekStart := day }

end Settings

end RecordQuery
