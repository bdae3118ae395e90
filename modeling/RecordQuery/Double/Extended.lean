import RecordQuery.Double.Basic

/-!
# Doubles with infinities and an undefined value

A width set by a caller may be any double at all, so this is the type of a width. Stepping a finite
value down to a multiple of a width follows the usual rules: an infinite width leaves remainder
the whole value, and a zero or undefined width has no remainder at all.
-/

namespace RecordQuery

/-- Any double. -/
inductive Extended where
  | finite (d : Double)
  | infinite (negative : Bool)
  | undefined
deriving DecidableEq

namespace Extended

/-- Finite and above zero. -/
def isPositiveFinite : Extended → Bool
  | finite d => decide (0 < d.scaled)
  | infinite _ | undefined => false

/-- `d` less its remainder by the width. -/
def stepDown (d : Double) : Extended → Extended
  | finite width => if width.scaled = 0 then undefined else finite (d.stepDown width)
  | infinite _ => finite (Double.zero false)
  | undefined => undefined

end Extended

end RecordQuery
