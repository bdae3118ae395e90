import RecordQuery.Calendar.Date

/-!
# Instants

An instant is a second counted from 1970-01-01T00:00:00Z and nanoseconds within it. A leap second
is held as the second before it with a thousand million nanoseconds more, so instants are ordered
by second and then by nanosecond. The instants are those from the start of the year -262143 to the
end of the year 262142.
-/

namespace RecordQuery

namespace Instant

def firstYear : Int := -262143

def lastYear : Int := 262142

/-- What the parts of an instant have to be. A leap second ends a minute. -/
abbrev Supported (second : Int) (nano : Nat) : Prop :=
  yearStart firstYear * 86400 ≤ second ∧ second < yearStart (lastYear + 1) * 86400 ∧
    nano < 2000000000 ∧ (1000000000 ≤ nano → second % 60 = 59)

end Instant

structure Instant where
  second : Int
  nano : Nat
  supported : Instant.Supported second nano
deriving DecidableEq

namespace Instant

def of? (second : Int) (nano : Nat) : Option Instant :=
  if supported : Supported second nano then some ⟨second, nano, supported⟩ else none

/-- The instant this many milliseconds after 1970-01-01T00:00:00Z. -/
def ofMillis? (millis : Int) : Option Instant :=
  of? (millis / 1000) ((millis % 1000).toNat * 1000000)

/-- Milliseconds from 1970-01-01T00:00:00Z, rounded down. -/
def millis (t : Instant) : Int :=
  t.second * 1000 + (t.nano / 1000000 : Nat)

/-- The day number. -/
def day (t : Instant) : Int :=
  t.second / 86400

def secondOfDay (t : Instant) : Nat :=
  (t.second % 86400).toNat

def isLeapSecond (t : Instant) : Bool :=
  1000000000 ≤ t.nano

def compare (a b : Instant) : Ordering :=
  (Ord.compare a.second b.second).then (Ord.compare a.nano b.nano)

/-- The instant `days` days before, at the same time of day. A leap second after the last second of
all is not reached from another day. -/
def daysBefore? (t : Instant) (days : Int) : Option Instant :=
  if days = 0 then some t
  else
    (of? (t.second - days * 86400) t.nano).filter fun s =>
      !(s.isLeapSecond && s.second + 1 == yearStart (lastYear + 1) * 86400)

/-- The instant of a civil date and time of day, `offset` seconds ahead of UTC. The second 60 is a
leap second. The date has to lie in the supported years before the offset is applied. -/
def ofCivil? (year : Int) (month day hour minute second nano : Nat) (offset : Int) :
    Option Instant := do
  let date ← Date.of? year month day
  guard (firstYear ≤ year ∧ year ≤ lastYear)
  guard (hour < 24 ∧ minute < 60 ∧ second ≤ 60 ∧ offset.natAbs < 86400)
  let held := if second = 60 then 59 else second
  let leap := if second = 60 then 1000000000 else 0
  of? (date.toDay * 86400 + (hour * 3600 + minute * 60 + held : Nat) - offset) (nano + leap)

end Instant

end RecordQuery
