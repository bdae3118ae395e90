import RecordQuery.Double.Basic

/-!
# The fewest digits that read back

The reals that round to a double form an interval from halfway to its lower neighbour to halfway
to its upper one, and the ends belong to it when the rank is even. `Decimal.shortest` finds the
coarsest decimal grid with a point in that interval and takes the point nearest to the value.
Only the two grid points around the value need a look: if any point of a grid is in the interval,
one of those two is.
-/

namespace RecordQuery

/-- `digits * 10 ^ exponent`. -/
structure Decimal where
  digits : Nat
  exponent : Int
deriving DecidableEq

/-- Which of two equally near decimals is taken. -/
inductive Tie where
  | toEven
  | upward
deriving DecidableEq

namespace Decimal

/-- The step of the grid of multiples of `10 ^ exponent`, in half units and as a fraction. -/
def gridStep (exponent : Int) : Nat × Nat :=
  (Nat.pow 10 exponent.toNat * (2 * Double.unitsPerOne), Nat.pow 10 (-exponent).toNat)

/-- Whether `point * num / den` half units round to the magnitude of `rank`. -/
def readsBack (rank point num den : Nat) : Bool :=
  let low := (Double.units (rank - 1) + Double.units rank) * den
  let high := (Double.units rank + Double.units (rank + 1)) * den
  let x := point * num
  if rank % 2 = 0 then decide (low ≤ x) && decide (x ≤ high)
  else decide (low < x) && decide (x < high)

/-- The multiple of `10 ^ exponent` nearest to the magnitude, if one reads back. -/
def onGrid? (tie : Tie) (rank : Nat) (exponent : Int) : Option Decimal :=
  let (num, den) := gridStep exponent
  let value := 2 * Double.units rank * den
  let below := value / num
  let above := below + 1
  match readsBack rank below num den, readsBack rank above num den with
  | false, false => none
  | true, false => some ⟨below, exponent⟩
  | false, true => some ⟨above, exponent⟩
  | true, true =>
    match Ord.compare (2 * value) ((below + above) * num) with
    | .lt => some ⟨below, exponent⟩
    | .gt => some ⟨above, exponent⟩
    | .eq =>
      match tie with
      | .upward => some ⟨above, exponent⟩
      | .toEven => some ⟨if below % 2 = 0 then below else above, exponent⟩

/-- The first grid with a hit among `steps` grids, each ten times finer than the last; after them
the magnitude itself, which is a multiple of `10 ^ -1074`. -/
def firstHit (tie : Tie) (rank : Nat) : Nat → Int → Decimal
  | 0, _ => ⟨Double.units rank * Nat.pow 5 1074, -1074⟩
  | steps + 1, exponent =>
    match onGrid? tie rank exponent with
    | some d => d
    | none => firstHit tie rank steps (exponent - 1)

/-- An exponent whose power of ten exceeds the magnitude. -/
def startExponent (rank : Nat) : Int :=
  (((Double.units rank).log2 : Int) - 1073) * 30103 / 100000 + 2

/-- The shortest decimal that reads back as the magnitude of `rank`. -/
def shortest (tie : Tie) (rank : Nat) : Decimal :=
  if rank = 0 then ⟨0, 0⟩
  else firstHit tie rank ((startExponent rank + 1074).toNat) (startExponent rank)

end Decimal

end RecordQuery
