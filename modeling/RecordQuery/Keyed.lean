/-!
# Entries in key order

Lists of keys and values that are kept in ascending order of the keys, by code point, with one
entry for a key.
-/

namespace RecordQuery.Keyed

variable {α : Type}

/-- Puts a value under a key, in place of the value there before. -/
def insert (key : String) (a : α) : List (String × α) → List (String × α)
  | [] => [(key, a)]
  | (k, b) :: rest =>
    match compare key k with
    | .lt => (key, a) :: (k, b) :: rest
    | .eq => (key, a) :: rest
    | .gt => (k, b) :: insert key a rest

/-- The entries of a list, the last one for a key winning. -/
def ofList (entries : List (String × α)) : List (String × α) :=
  entries.foldl (fun sorted entry => insert entry.1 entry.2 sorted) []

/-- The value under a key. -/
def find? (key : String) : List (String × α) → Option α
  | [] => none
  | (k, a) :: rest => if k = key then some a else find? key rest

end RecordQuery.Keyed
