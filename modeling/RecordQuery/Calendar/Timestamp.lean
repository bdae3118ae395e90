import RecordQuery.Calendar.Instant
import RecordQuery.Text.Blank
import RecordQuery.Text.Digits

/-!
# Timestamps

Written, a timestamp is in UTC and ends in `Z`; years outside 0 to 9999 carry a sign. Three forms
are read, tried in this order: the strict form with a zone, and a date with or without a time, both
in UTC and with room for blanks before their numbers (`Instant.ofText?`). A fourth, relaxed form
with a zone is read for the reference instant of the settings (`Instant.ofRelaxedText?`).
-/

namespace RecordQuery

open RecordQuery.Text

/-- A year of four digits, or one with a sign and at least four. -/
def yearChars (year : Int) : List Char :=
  if 0 ≤ year ∧ year ≤ 9999 then padded 4 year.natAbs
  else (if year < 0 then '-' else '+') :: padded 4 year.natAbs

namespace Date

def chars (d : Date) : List Char :=
  yearChars d.year ++ '-' :: padded 2 d.month ++ '-' :: padded 2 d.day

def toText (d : Date) : String :=
  String.ofList d.chars

end Date

namespace Instant

/-- Date and time to the second. A leap second is written `:60`. -/
def secondChars (t : Instant) : List Char :=
  (Date.ofDay t.day).chars ++ 'T' :: padded 2 (t.secondOfDay / 3600)
    ++ ':' :: padded 2 (t.secondOfDay / 60 % 60)
    ++ ':' :: padded 2 (t.secondOfDay % 60 + if t.isLeapSecond then 1 else 0)

/-- The nanoseconds that a written fraction shows. -/
def fraction (t : Instant) : Nat :=
  t.nano % 1000000000

def chars (t : Instant) : List Char :=
  t.secondChars ++ '.' :: padded 3 (t.fraction / 1000000) ++ ['Z']

/-- The timestamp with milliseconds. -/
def toText (t : Instant) : String :=
  String.ofList t.chars

/-- The timestamp with the fewest of no, three, six or nine places that lose nothing. -/
def toExactText (t : Instant) : String :=
  let places :=
    if t.fraction = 0 then []
    else if t.fraction % 1000000 = 0 then '.' :: padded 3 (t.fraction / 1000000)
    else if t.fraction % 1000 = 0 then '.' :: padded 6 (t.fraction / 1000)
    else '.' :: padded 9 t.fraction
  String.ofList (t.secondChars ++ places ++ ['Z'])

/-- The nanoseconds of an optional point and digits, of which the first nine count. -/
def readFraction? : List Char → Option (Nat × List Char)
  | '.' :: cs =>
    let (digits, rest) := spanDigits cs
    let counted := digits.take 9
    if digits.isEmpty then none
    else some (digitsValue counted * Nat.pow 10 (9 - counted.length), rest)
  | cs => some (0, cs)

/-- The seconds of an offset in hours and minutes, with `separator` to pass what stands between. -/
def readOffset? (separator : List Char → Option (List Char)) : List Char → Option (Int × List Char)
  | [] => none
  | sign :: cs => do
    guard (sign = '+' ∨ sign = '-' ∨ sign = '\u2212')
    let (hours, cs) ← readNumber? 2 2 cs
    let cs ← separator cs
    let (minutes, cs) ← readNumber? 2 2 cs
    guard (minutes < 60)
    let seconds : Int := (hours * 3600 + minutes * 60 : Nat)
    return (if sign = '+' then seconds else -seconds, cs)

/-- `Z` in either case, or an offset. -/
def readZone? (separator : List Char → Option (List Char)) : List Char → Option (Int × List Char)
  | 'Z' :: cs | 'z' :: cs => some (0, cs)
  | cs => readOffset? separator cs

/-- `YYYY-MM-DD`, one of `T`, `t` and a space, `HH:MM:SS`, an optional fraction, and a zone. -/
def ofStrictChars? (cs : List Char) : Option Instant := do
  let (year, cs) ← readNumber? 4 4 cs
  let cs ← skipChar? '-' cs
  let (month, cs) ← readNumber? 2 2 cs
  let cs ← skipChar? '-' cs
  let (day, cs) ← readNumber? 2 2 cs
  let cs ← skipChar? 'T' cs <|> skipChar? 't' cs <|> skipChar? ' ' cs
  let (hour, cs) ← readNumber? 2 2 cs
  let cs ← skipChar? ':' cs
  let (minute, cs) ← readNumber? 2 2 cs
  let cs ← skipChar? ':' cs
  let (second, cs) ← readNumber? 2 2 cs
  let (nano, cs) ← readFraction? cs
  let (offset, cs) ← readZone? (skipChar? ':') cs
  guard cs.isEmpty
  ofCivil? year month day hour minute second nano offset

/-- A number of one or two digits after any blanks. -/
def readPart? (cs : List Char) : Option (Nat × List Char) :=
  readNumber? 1 2 (skipBlanks cs)

/-- A year of up to four digits, or of any length with a sign, after any blanks. -/
def readYear? (cs : List Char) : Option (Int × List Char) :=
  match skipBlanks cs with
  | '-' :: cs => (readLongNumber? cs).map fun (n, cs) => (-(n : Int), cs)
  | '+' :: cs => (readLongNumber? cs).map fun (n, cs) => ((n : Int), cs)
  | cs => (readNumber? 1 4 cs).map fun (n, cs) => ((n : Int), cs)

/-- Passes `c`, and the blanks before it where `loose`. -/
def skipMark? (loose : Bool) (c : Char) (cs : List Char) : Option (List Char) :=
  skipChar? c (if loose then skipBlanks cs else cs)

/-- The year, month and day of a date. -/
def readDate? (loose : Bool) (cs : List Char) : Option ((Int × Nat × Nat) × List Char) := do
  let (year, cs) ← readYear? cs
  let cs ← skipMark? loose '-' cs
  let (month, cs) ← readPart? cs
  let cs ← skipMark? loose '-' cs
  let (day, cs) ← readPart? cs
  return ((year, month, day), cs)

/-- The hour, minute, second and nanosecond of a time of day. -/
def readTime? (loose : Bool) (cs : List Char) : Option ((Nat × Nat × Nat × Nat) × List Char) := do
  let (hour, cs) ← readPart? cs
  let cs ← skipMark? loose ':' cs
  let (minute, cs) ← readPart? cs
  let cs ← skipMark? loose ':' cs
  let (second, cs) ← readPart? cs
  let (nano, cs) ← readFraction? cs
  return ((hour, minute, second, nano), cs)

/-- A date, `T` and a time of day, in UTC. -/
def ofPlainChars? (cs : List Char) : Option Instant := do
  let ((year, month, day), cs) ← readDate? false cs
  let cs ← skipChar? 'T' cs
  let ((hour, minute, second, nano), cs) ← readTime? false cs
  guard cs.isEmpty
  ofCivil? year month day hour minute second nano 0

/-- A date, which stands for its midnight in UTC. -/
def ofDateChars? (cs : List Char) : Option Instant := do
  let ((year, month, day), cs) ← readDate? false cs
  guard cs.isEmpty
  ofCivil? year month day 0 0 0 0 0

/-- The instant a text stands for. -/
def ofText? (s : String) : Option Instant :=
  ofStrictChars? s.toList <|> ofPlainChars? s.toList <|> ofDateChars? s.toList

/-- Passes any colons and blanks. -/
def skipColons? (cs : List Char) : Option (List Char) :=
  some (cs.dropWhile fun c => c == ':' || isBlank c)

/-- `UTC` in any case, or another zone, whose offset may have blanks and colons inside. -/
def readRelaxedZone? : List Char → Option (Int × List Char)
  | a :: b :: c :: cs =>
    if a.toUpper = 'U' ∧ b.toUpper = 'T' ∧ c.toUpper = 'C' then some (0, cs)
    else readZone? skipColons? (a :: b :: c :: cs)
  | cs => readZone? skipColons? cs

/-- The instant of a date, one of `T`, `t` and a space, a time of day and a zone, with blanks allowed
before every part but the mark between date and time. -/
def ofRelaxedText? (s : String) : Option Instant := do
  let ((year, month, day), cs) ← readDate? true s.toList
  let cs ← skipChar? 'T' cs <|> skipChar? 't' cs <|> skipChar? ' ' cs
  let ((hour, minute, second, nano), cs) ← readTime? true cs
  let (offset, cs) ← readRelaxedZone? (skipBlanks cs)
  guard (skipBlanks cs).isEmpty
  ofCivil? year month day hour minute second nano offset

end Instant

end RecordQuery
