import RecordQuery.Json.Scalar

/-!
# Comparing values

Three relations of values. `Value.strictEq` is equality without coercion, by value for numbers.
`Value.compare?` is the order of the order operators and is absent for values of kinds that do not
go together. `Value.sortCompare` orders any two values, by kind first, and is what records are
sorted by.
-/

namespace RecordQuery.Json

namespace Value

/-- Equality by value for two numbers, and of structure for everything else. -/
def strictEq : Value → Value → Bool
  | number a, number b => a.compare b == .eq
  | a, b => a.same b

/-- The order of the instants of two values, if both stand for one. -/
def compareInstants? (a b : Value) : Option Ordering := do
  let s ← a.instant?
  let t ← b.instant?
  return s.compare t

/-- The order of two scalars that can be compared. Two texts are compared as instants if both
stand for one, and a number and a text only as instants. -/
def compare? : Value → Value → Option Ordering
  | number a, number b => some (a.compare b)
  | text a, text b => (compareInstants? (text a) (text b)).or (some (Ord.compare a b))
  | boolean a, boolean b => some (Ord.compare a b)
  | number a, text b => compareInstants? (number a) (text b)
  | text a, number b => compareInstants? (text a) (number b)
  | _, _ => none

/-- What a value is sorted by. -/
inductive SortKey where
  | null
  | boolean (b : Bool)
  | number (n : Number)
  | date (t : Instant) (s : String)
  | text (s : String)
  | list (json : String)
  | object (json : String)

namespace SortKey

/-- The place of a kind among the kinds. -/
def rank : SortKey → Nat
  | null => 0
  | boolean _ => 1
  | number _ => 2
  | date _ _ => 3
  | text _ => 4
  | list _ => 5
  | object _ => 6

/-- By kind, and within a kind by value. Dates of one instant are ordered by their text. -/
def compare : SortKey → SortKey → Ordering
  | null, null => .eq
  | boolean a, boolean b => Ord.compare a b
  | number a, number b => a.sortCompare b
  | date s a, date t b => (s.compare t).then (Ord.compare a b)
  | text a, text b => Ord.compare a b
  | list a, list b => Ord.compare a b
  | object a, object b => Ord.compare a b
  | a, b => Ord.compare a.rank b.rank

end SortKey

def sortKey : Value → SortKey
  | null => .null
  | boolean b => .boolean b
  | number n => .number n
  | text s =>
    match Instant.ofText? s with
    | some t => .date t s
    | none => .text s
  | list items => .list (list items).toText
  | object members => .object (object members).toText

/-- The order values are sorted by: null, booleans, numbers, dates, other texts, lists, objects. -/
def sortCompare (a b : Value) : Ordering :=
  a.sortKey.compare b.sortKey

end Value

end RecordQuery.Json
