import RecordQuery.Decimal.Layout
import RecordQuery.Word

/-!
# JSON numbers

A number is an integer of at most 64 bits, with a sign only below zero, or a finite double. The
form is kept: `2` and `2.0` are different numbers with the same value. Integers are compared as
such, and an integer with a double as doubles, after rounding the integer.
-/

namespace RecordQuery.Json

/-- The integers from the least signed one of 64 bits to the greatest unsigned one. -/
abbrev Number.Fits (n : Int) : Prop :=
  -Word.half ≤ n ∧ n < Word.size

inductive Number where
  | integer (n : Int) (fits : Number.Fits n)
  | real (d : Double)
deriving DecidableEq

namespace Number

/-- The integer `n`, or the nearest double if it has no integer form. -/
def ofInt (n : Int) : Number :=
  if fits : Fits n then integer n fits else real (Double.ofInt n)

/-- The nearest double. -/
def toDouble : Number → Double
  | integer n _ => Double.ofInt n
  | real d => d

/-- Equality of form and value. -/
def same : Number → Number → Bool
  | integer m _, integer n _ => m == n
  | real a, real b => a.same b
  | _, _ => false

/-- The order of the values as far as doubles can tell them apart. -/
def compare : Number → Number → Ordering
  | integer m _, integer n _ => Ord.compare m n
  | a, b => a.toDouble.compare b.toDouble

/-- The integer part, toward zero. -/
def wholePart : Number → Int
  | integer n _ => n
  | real d => d.truncate

/-- The order numbers are sorted by: first as doubles, with negative zero before zero, then by
integer part, which tells integers apart that round to one double. -/
def sortCompare (a b : Number) : Ordering :=
  (a.toDouble.totalCompare b.toDouble).then (Ord.compare a.wholePart b.wholePart)

/-- Doubles are written with the fewest digits that read back, positionally from `0.00001` to
below `10 ^ 16`, and always with a point or an exponent. -/
def layout : Decimal.Layout where
  positional := some (-5, 15)
  marksWhole := true
  tie := .toEven

def chars : Number → List Char
  | integer n _ => if n < 0 then '-' :: Nat.toDigits 10 n.natAbs else Nat.toDigits 10 n.natAbs
  | real d => layout.chars d

end Number

end RecordQuery.Json
