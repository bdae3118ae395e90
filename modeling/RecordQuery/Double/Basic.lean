/-!
# Finite doubles, exactly

A finite double is a sign and a rank: the place of its magnitude among the magnitudes a double
can have, smallest first. Every such magnitude is a whole number of units of `2 ^ -1074`
(`Double.units`), so the value is an integer of units (`Double.scaled`) and all arithmetic here
is exact integer arithmetic followed by one rounding to nearest, a half going to the even rank.
-/

namespace RecordQuery

namespace Double

/-- How many doubles there are from one power of two to below the next: `2 ^ 52`. -/
abbrev binade : Nat := 4503599627370496

/-- How many magnitudes a finite double can have. -/
abbrev rankCount : Nat := 2047 * binade

end Double

/-- A finite double. Both zeros are kept apart by the sign. -/
structure Double where
  negative : Bool
  rank : Nat
  rank_lt : rank < Double.rankCount
deriving DecidableEq

namespace Double

/-- How many of the units in which magnitudes are counted make one. -/
def unitsPerOne : Nat := Nat.pow 2 1074

/-- The magnitude of a rank, in units: steps of one unit for two binades of ranks, then steps that
double with each further binade. -/
def units (rank : Nat) : Nat :=
  if rank < binade then rank else (binade + rank % binade) * Nat.pow 2 (rank / binade - 1)

/-- The value in units. -/
def scaled (d : Double) : Int :=
  if d.negative then -(units d.rank : Int) else (units d.rank : Int)

/-- A quotient rounded to the nearest whole number, a half to the even neighbour. -/
def roundQuotient (num den : Nat) : Nat :=
  let whole := num / den
  let left := num % den
  if 2 * left < den then whole
  else if den < 2 * left then whole + 1
  else whole + whole % 2

/-- The rank nearest to `num / den` units, as if ranks had no end. A significand has 53 digits, so
beyond two binades of units the quotient is rounded in a coarser step. -/
def nearestRank (num den : Nat) : Nat :=
  let spare := (num / den).log2 - 52
  spare * binade + roundQuotient num (den * Nat.pow 2 spare)

/-- The double nearest to `num / den` units, and the largest one for anything beyond it. -/
def nearest (negative : Bool) (num den : Nat) : Double where
  negative := negative
  rank := min (nearestRank num den) (rankCount - 1)
  rank_lt := Nat.lt_of_le_of_lt (Nat.min_le_right _ _) (by decide)

/-- The double nearest to a whole number of units. -/
def ofScaled (x : Int) : Double :=
  nearest (x < 0) x.natAbs 1

/-- The double nearest to an integer. -/
def ofInt (n : Int) : Double :=
  nearest (n < 0) (n.natAbs * unitsPerOne) 1

/-- Zero of the given sign. -/
def zero (negative : Bool) : Double where
  negative := negative
  rank := 0
  rank_lt := by decide

/-- The order of the values. The two zeros are equal. -/
def compare (a b : Double) : Ordering :=
  Ord.compare a.scaled b.scaled

/-- A place on the line of all doubles, where negative zero comes just before zero. -/
def place (d : Double) : Int :=
  if d.negative then -(d.rank : Int) - 1 else (d.rank : Int)

/-- The order of the doubles themselves, which tells the two zeros apart. -/
def totalCompare (a b : Double) : Ordering :=
  Ord.compare a.place b.place

/-- Equality of values: the two zeros are the same. -/
def same (a b : Double) : Bool :=
  a.scaled == b.scaled

def isIntegral (d : Double) : Bool :=
  d.scaled % unitsPerOne == 0

/-- The greatest integer that is not above the value. -/
def floor (d : Double) : Int :=
  d.scaled / unitsPerOne

/-- The integer part, toward zero. -/
def truncate (d : Double) : Int :=
  d.scaled.tdiv unitsPerOne

/-- The value less its remainder by `width`, the remainder taken toward zero. -/
def stepDown (d width : Double) : Double :=
  ofScaled (d.scaled - d.scaled.tmod width.scaled)

end Double

end RecordQuery
