import RecordQuery.Json.Value
import RecordQuery.Text.Digits
import RecordQuery.Word

/-!
# Field paths

A path names a field by dot-separated segments; empty segments count for nothing. It is resolved in
two ways. `FieldPath.extract` looks into every item of every list it meets and finds any number of
values, none of them null or a list; conditions use it. `FieldPath.lookup?` takes a list as a whole,
or one item of it by number, and finds at most one value; sorting and bucketing use it.
-/

namespace RecordQuery

open Json

/-- Splits at every dot. -/
def splitDots : List Char → List (List Char)
  | [] => [[]]
  | c :: cs =>
    match splitDots cs with
    | [] => [[c]]
    | segment :: segments =>
      if c = '.' then [] :: segment :: segments else (c :: segment) :: segments

structure FieldPath where
  raw : String
deriving DecidableEq

namespace FieldPath

def segments (path : FieldPath) : List String :=
  ((splitDots path.raw.toList).filter (!·.isEmpty)).map String.ofList

/-- The item number that a segment stands for: digits, with a plus sign allowed in front. -/
def itemNumber? (segment : String) : Option Nat :=
  let digits := match segment.toList with
    | '+' :: cs => cs
    | cs => cs
  if digits.isEmpty || digits.any (!·.isDigit) then none
  else
    let n := Text.digitsValue digits
    if n < Word.size then some n else none

/-- One step of a lookup: a member of an object, or an item of a list. -/
def step? (segment : String) : Value → Option Value
  | .object members => Keyed.find? segment members
  | .list items => itemNumber? segment >>= fun i => items[i]?
  | _ => none

def lookupFrom? : List String → Value → Option Value
  | [], v => some v
  | segment :: segments, v => step? segment v >>= lookupFrom? segments

/-- The value at the path, without looking into lists. -/
def lookup? (path : FieldPath) (doc : Value) : Option Value :=
  lookupFrom? path.segments doc

mutual

/-- The values that a value without segments left contributes: itself, or what its items do. -/
def leaves : Value → List Value
  | .null => []
  | .list items => itemLeaves items
  | v => [v]

def itemLeaves : List Value → List Value
  | [] => []
  | item :: items => leaves item ++ itemLeaves items

end

mutual

/-- The values under a member, through all lists on the way. -/
def under (segment : String) : Value → List Value
  | .list items => itemsUnder segment items
  | v => (v.member? segment).toList

def itemsUnder (segment : String) : List Value → List Value
  | [] => []
  | item :: items => under segment item ++ itemsUnder segment items

end

def extractFrom : List String → Value → List Value
  | [], v => leaves v
  | segment :: segments, v => (under segment v).flatMap (extractFrom segments)

/-- All values at the path, through all lists on the way and at its end. -/
def extract (path : FieldPath) (doc : Value) : List Value :=
  extractFrom path.segments doc

end FieldPath

end RecordQuery
