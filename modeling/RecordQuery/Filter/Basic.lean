import RecordQuery.SortRule
import RecordQuery.Statement

/-!
# Filters

A filter keeps the records that every statement holds of, sorts them, and takes the first few. Its
statements are compiled before any record is read, so a malformed one is an error even where no
record or no result is asked for.
-/

namespace RecordQuery

structure Filter where
  statements : List Statement := []
  sort : Option SortRule := none
  /-- The greatest number of results. -/
  limit : Option Nat := none

namespace Filter

variable {α : Type} [Record α]

def compile (filter : Filter) (settings : Settings) : Except Fault StatementChecks :=
  Statement.compileAll settings filter.statements

/-- Sorting and limiting of the records kept. -/
def arrange (filter : Filter) (records : List α) : List α :=
  let sorted := match filter.sort with
    | some rule => rule.apply records
    | none => records
  match filter.limit with
  | some limit => sorted.take limit
  | none => sorted

/-- The records the filter selects. -/
def apply (filter : Filter) (settings : Settings) (records : List α) : Except Fault (List α) := do
  let checks ← filter.compile settings
  if filter.limit = some 0 then return []
  return filter.arrange (checks.keep records)

/-- How many records the statements hold of, whatever the limit. -/
def count (filter : Filter) (settings : Settings) (records : List α) : Except Fault Nat := do
  let checks ← filter.compile settings
  return (checks.keep records).length

/-- Whether the statements hold of a record. -/
def accepts (filter : Filter) (settings : Settings) (record : α) : Except Fault Bool := do
  let checks ← filter.compile settings
  return checks.accepts (Record.document record)

end Filter

end RecordQuery
