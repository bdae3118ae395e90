/-!
# Decimal digits in text

Reading runs of the digits `0` to `9`, with bounds on the length of a run, and writing numbers
padded with zeros.
-/

namespace RecordQuery.Text

/-- The number a run of digits stands for. -/
def digitsValue (cs : List Char) : Nat :=
  cs.foldl (fun n c => 10 * n + (c.toNat - '0'.toNat)) 0

/-- The leading digits, and what follows them. -/
def spanDigits (cs : List Char) : List Char × List Char :=
  (cs.takeWhile Char.isDigit, cs.dropWhile Char.isDigit)

/-- The leading digits, at most `most` of them, and what follows those. -/
def takeDigits (most : Nat) (cs : List Char) : List Char × List Char :=
  let run := (cs.takeWhile Char.isDigit).take most
  (run, cs.drop run.length)

/-- A number of at least `least` and at most `most` digits, and what follows. -/
def readNumber? (least most : Nat) (cs : List Char) : Option (Nat × List Char) :=
  let (run, rest) := takeDigits most cs
  if least ≤ run.length then some (digitsValue run, rest) else none

/-- A number of one or more digits, and what follows. -/
def readLongNumber? (cs : List Char) : Option (Nat × List Char) :=
  let (run, rest) := spanDigits cs
  if run.isEmpty then none else some (digitsValue run, rest)

/-- What follows `c`, if `c` comes first. -/
def skipChar? (c : Char) : List Char → Option (List Char)
  | [] => none
  | d :: rest => if d = c then some rest else none

/-- A number with zeros in front up to `width` digits. -/
def padded (width n : Nat) : List Char :=
  let digits := Nat.toDigits 10 n
  List.replicate (width - digits.length) '0' ++ digits

end RecordQuery.Text
