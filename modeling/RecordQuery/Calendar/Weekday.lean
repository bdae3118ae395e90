/-!
# Days of the week
-/

namespace RecordQuery

inductive Weekday where
  | monday
  | tuesday
  | wednesday
  | thursday
  | friday
  | saturday
  | sunday
deriving DecidableEq

namespace Weekday

def all : List Weekday :=
  [monday, tuesday, wednesday, thursday, friday, saturday, sunday]

/-- Days since Monday. -/
def index : Weekday → Nat
  | monday => 0
  | tuesday => 1
  | wednesday => 2
  | thursday => 3
  | friday => 4
  | saturday => 5
  | sunday => 6

def shortName : Weekday → String
  | monday => "Mon"
  | tuesday => "Tue"
  | wednesday => "Wed"
  | thursday => "Thu"
  | friday => "Fri"
  | saturday => "Sat"
  | sunday => "Sun"

def fullName : Weekday → String
  | monday => "Monday"
  | tuesday => "Tuesday"
  | wednesday => "Wednesday"
  | thursday => "Thursday"
  | friday => "Friday"
  | saturday => "Saturday"
  | sunday => "Sunday"

/-- The weekday of a name of three letters or in full, in any ASCII case. -/
def ofName? (name : String) : Option Weekday :=
  all.find? fun day =>
    name.toLower == day.shortName.toLower || name.toLower == day.fullName.toLower

/-- Days since Monday of a day number counted from 1970-01-01, a Thursday. -/
def indexOfDay (day : Int) : Int :=
  (day + 3) % 7

end Weekday

end RecordQuery
