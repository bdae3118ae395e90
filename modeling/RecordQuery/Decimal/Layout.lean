import RecordQuery.Decimal.Shortest
import RecordQuery.Double.Extended

/-!
# Laying out a decimal

With a value written `d.ddd * 10 ^ e`, a layout says for which `e` the number is written
positionally and whether a whole number keeps a point. All other numbers are written with an
exponent that always carries its sign.
-/

namespace RecordQuery

namespace Decimal

/-- How a double is written. -/
structure Layout where
  /-- The exponents written positionally; without bounds, all are. -/
  positional : Option (Int × Int)
  /-- Whether a positional whole number ends in `.0`. -/
  marksWhole : Bool
  tie : Tie

def zeros (n : Nat) : List Char :=
  List.replicate n '0'

/-- Digits with the point after the first `10 ^ exponent` place. -/
def positionalChars (marksWhole : Bool) (digits : List Char) (exponent : Int) : List Char :=
  if 0 ≤ exponent then
    digits ++ zeros exponent.toNat ++ (if marksWhole then ['.', '0'] else [])
  else
    let places := (-exponent).toNat
    if digits.length ≤ places then
      ['0', '.'] ++ zeros (places - digits.length) ++ digits
    else
      digits.take (digits.length - places) ++ '.' :: digits.drop (digits.length - places)

/-- One digit, a point if more follow, and the exponent with its sign. -/
def scientificChars (digits : List Char) (leading : Int) : List Char :=
  let fraction := digits.drop 1
  digits.take 1 ++ (if fraction.isEmpty then [] else '.' :: fraction)
    ++ ['e', if leading < 0 then '-' else '+'] ++ Nat.toDigits 10 leading.natAbs

namespace Layout

def isPositional (layout : Layout) (leading : Int) : Bool :=
  match layout.positional with
  | none => true
  | some (least, greatest) => decide (least ≤ leading) && decide (leading ≤ greatest)

/-- The magnitude of a rank, without a sign. -/
def magnitudeChars (layout : Layout) (rank : Nat) : List Char :=
  let d := shortest layout.tie rank
  let digits := Nat.toDigits 10 d.digits
  let leading := d.exponent + digits.length - 1
  if layout.isPositional leading then positionalChars layout.marksWhole digits d.exponent
  else scientificChars digits leading

/-- A finite double; negative zero keeps its sign. -/
def chars (layout : Layout) (d : Double) : List Char :=
  if d.negative then '-' :: layout.magnitudeChars d.rank else layout.magnitudeChars d.rank

/-- Any double. -/
def text (layout : Layout) : Extended → String
  | .finite d => String.ofList (layout.chars d)
  | .infinite negative => if negative then "-inf" else "inf"
  | .undefined => "NaN"

end Layout

end Decimal

end RecordQuery
