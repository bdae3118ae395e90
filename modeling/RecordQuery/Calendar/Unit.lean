import RecordQuery.Calendar.Instant
import RecordQuery.Calendar.Weekday

/-!
# Calendar units

Truncating an instant takes it back to the start of the unit it lies in. Only the start of a week
can fall before the first supported instant.
-/

namespace RecordQuery

inductive DateUnit where
  | hour
  | day
  | week
  | month
  | year
deriving DecidableEq

namespace DateUnit

def all : List DateUnit :=
  [hour, day, week, month, year]

def name : DateUnit → String
  | hour => "hour"
  | day => "day"
  | week => "week"
  | month => "month"
  | year => "year"

/-- The second in which the unit around an instant starts. -/
def startSecond (weekStart : Weekday) (t : Instant) : DateUnit → Int
  | hour => t.second - t.second % 3600
  | day => t.day * 86400
  | week => (t.day - (Weekday.indexOfDay t.day - weekStart.index) % 7) * 86400
  | month =>
    let date := Date.ofDay t.day
    (t.day - (date.day - 1 : Nat)) * 86400
  | year => yearStart (Date.yearOfDay t.day) * 86400

/-- The start of the unit around an instant. -/
def truncate? (unit : DateUnit) (t : Instant) (weekStart : Weekday) : Option Instant :=
  Instant.of? (startSecond weekStart t unit) 0

end DateUnit

end RecordQuery
