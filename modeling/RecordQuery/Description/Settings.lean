import RecordQuery.Description.Reading
import RecordQuery.Calendar.Timestamp
import RecordQuery.Settings

/-!
# Descriptions of settings

Settings are described by `now`, a timestamp with a zone, and `weekStart`, a weekday. What is
missing is taken from other settings.
-/

namespace RecordQuery

open Json

namespace Settings

structure Fields where
  now : Option Instant := none
  weekStart : Option Weekday := none

def readField (fields : Fields) (name : String) (tree : Tree) : Reading Fields := do
  match name with
  | "now" =>
    let now := do Reading.ofOption (Instant.ofRelaxedText? (← Reading.text tree))
    return { fields with now := ← Reading.once fields.now now }
  | "weekStart" =>
    let day := do Reading.ofOption (Weekday.ofName? (← Reading.text tree))
    return { fields with weekStart := ← Reading.once fields.weekStart day }
  | _ => Reading.malformed

def read (default : Settings) (tree : Tree) : Reading Settings := do
  let fields ← Reading.record ["now", "weekStart"] readField {} tree
  return ⟨fields.now.getD default.now, fields.weekStart.getD default.weekStart⟩

def describe (settings : Settings) : Value :=
  Description.object [("now", some (.text settings.now.toExactText)),
    ("weekStart", some (.text settings.weekStart.shortName))]

end Settings

end RecordQuery
