import RecordQuery.Json.Printer
import RecordQuery.Double.Extended
import RecordQuery.Calendar.Timestamp

/-!
# What values count as

Blank values, scalars, the kinds that messages name, the instants that numbers and texts stand for,
and doubles turned into values. `Value.canonicalKey` is the text under which values are grouped:
a whole double and the integer of its value have one text.
-/

namespace RecordQuery.Json

namespace Number

/-- A double as a number, in integer form if it is whole and not beyond `Word.half`. That bound itself
becomes the integer just below it, the largest with a sign bit to spare. -/
def ofDouble (d : Double) : Number :=
  if d.isIntegral ∧ -Word.half ≤ d.floor ∧ d.floor ≤ Word.half then
    ofInt (min d.floor (Word.half - 1))
  else real d

end Number

namespace Value

/-- Null and the empty text stand for no value. -/
def isBlank : Value → Bool
  | null => true
  | text s => s.isEmpty
  | _ => false

def kindName : Value → String
  | null => "null"
  | boolean _ => "boolean"
  | number _ => "number"
  | text _ => "string"
  | list _ => "list"
  | object _ => "object"

def isScalar : Value → Bool
  | list _ | object _ => false
  | _ => true

/-- The instant a value stands for. A number counts milliseconds. -/
def instant? : Value → Option Instant
  | number (.integer n _) => Instant.ofMillis? n
  | number (.real d) => Instant.ofMillis? d.floor
  | text s => Instant.ofText? s
  | _ => none

/-- A double as a value; what is not finite becomes null. -/
def ofExtended : Extended → Value
  | .finite d => number (.ofDouble d)
  | .infinite _ | .undefined => null

/-- The text under which a value is grouped. -/
def canonicalKey : Value → String
  | number (.real d) => (number (.ofDouble d)).toText
  | v => v.toText

end Value

end RecordQuery.Json
