import RecordQuery.Double.Basic

/-!
# Decimals in double arithmetic

A decimal is made from its significand, which is first rounded to a double and then multiplied or
divided by the double nearest to a power of ten. Each of these steps rounds, so that the result can
be a neighbour of the double nearest to the decimal.
-/

namespace RecordQuery.Double

/-- The product, and nothing if that is beyond every double. -/
def times? (a b : Double) : Option Double :=
  let num := units a.rank * units b.rank
  if nearestRank num unitsPerOne < rankCount then
    some (nearest (a.negative != b.negative) num unitsPerOne)
  else none

/-- The quotient by a double of at least one. -/
def dividedBy (a b : Double) : Double :=
  nearest (a.negative != b.negative) (units a.rank * unitsPerOne) (units b.rank)

/-- The exponent of the greatest power of ten that is multiplied with at once. -/
abbrev tenLimit : Nat := 308

def tenPower (exponent : Nat) : Double :=
  ofInt (Nat.pow 10 exponent)

/-- The double times `10 ^ exponent`, and nothing if that is beyond every double. Exponents further down
are reached in steps of `tenLimit`, of which a few are enough to leave nothing but zero. -/
def timesTenPower? (d : Double) (exponent : Int) : Option Double :=
  if exponent.natAbs ≤ tenLimit then
    if 0 ≤ exponent then d.times? (tenPower exponent.natAbs)
    else some (d.dividedBy (tenPower exponent.natAbs))
  else if d.rank = 0 then some d
  else if 0 ≤ exponent then none
  else (d.dividedBy (tenPower tenLimit)).timesTenPower? (exponent + tenLimit)
termination_by exponent.natAbs
decreasing_by
  unfold tenLimit at *
  omega

/-- The double made from a decimal, and nothing if that is beyond every double. -/
def ofDecimal? (negative : Bool) (significand : Nat) (exponent : Int) : Option Double :=
  ((ofInt significand).timesTenPower? exponent).map fun d => { d with negative }

end RecordQuery.Double
