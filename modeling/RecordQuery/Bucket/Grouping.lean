import RecordQuery.Error
import RecordQuery.FieldPath
import RecordQuery.Json.Order
import RecordQuery.Record
import RecordQuery.Settings

/-!
# Groupings

A grouping is a chain of levels, each of which gives every document a list of keys. A key is the
value at a field, or that value stepped down to a multiple of a width, or the start of the calendar
unit it lies in; a document without a usable value has the absent key. A level can also take its
values from chosen items of a list field, so that a document has one key for each of them.
-/

namespace RecordQuery

open Json

/-- One level of a grouping. -/
structure Level where
  field : FieldPath
  /-- The keys that count; null admits the absent key. -/
  values : Option (List Value) := none
  interval : Option Extended := none
  unit : Option DateUnit := none
  /-- The identifiers of the items of a list field to take values from. -/
  itemIds : Option (List Value) := none
  /-- The property of such an item that holds its value. -/
  itemProperty : Option String := none

/-- A level and the levels inside its buckets, outermost first. -/
structure Grouping where
  level : Level
  deeper : List Level := []

namespace Level

/-- An interval has to be a positive finite width. -/
def validate (level : Level) : Except Fault Unit :=
  match level.interval with
  | some width => if width.isPositiveFinite then .ok () else .error (.invalidInterval width)
  | none => .ok ()

/-- The start of the unit around the instant of a value, as a timestamp. -/
def unitKey (unit : DateUnit) (settings : Settings) (v : Value) : Option Value := do
  let t ← v.instant?
  let start ← unit.truncate? t settings.weekStart
  return .text start.toText

/-- A number less its remainder by the width. -/
def intervalKey (width : Extended) : Value → Option Value
  | .number n => some (.ofExtended (width.stepDown n.toDouble))
  | _ => none

/-- The key of a value that is not null. A unit counts before an interval. -/
def keyOfValue (level : Level) (settings : Settings) (v : Value) : Option Value :=
  match level.unit, level.interval with
  | some unit, _ => unitKey unit settings v
  | none, some width => intervalKey width v
  | none, none => some v

/-- The key of a value or of its absence. -/
def keyOf (level : Level) (settings : Settings) (raw : Option Value) : Option Value :=
  raw.filter (!·.isNull) >>= level.keyOfValue settings

/-- Whether a key counts. -/
def admits (level : Level) (key : Option Value) : Bool :=
  match level.values, key with
  | none, _ => true
  | some allowed, none => allowed.any Value.isNull
  | some allowed, some key => allowed.any fun v => v.strictEq key

/-- Whether an item of a list has one of the identifiers. -/
def isChosen (ids : List Value) (item : Value) : Bool :=
  ((item.member? Record.idField).map fun id => ids.any fun v => v.strictEq id).getD false

/-- What an item holds to be keyed. -/
def itemValue (level : Level) (item : Value) : Option Value :=
  match level.itemProperty with
  | some property => item.member? property
  | none => some item

/-- The keys of a document before any is refused. -/
def candidates (level : Level) (settings : Settings) (doc : Value) : List (Option Value) :=
  let found := level.field.lookup? doc
  match level.itemIds, found with
  | none, _ => [level.keyOf settings found]
  | some ids, some (.list items) =>
    (items.filter (isChosen ids)).map fun item => level.keyOf settings (level.itemValue item)
  | some _, _ => []

/-- The keys of a document that count. -/
def keys (level : Level) (settings : Settings) (doc : Value) : List (Option Value) :=
  (level.candidates settings doc).filter level.admits

end Level

namespace Grouping

/-- The levels from the outermost inwards. -/
def levels (grouping : Grouping) : List Level :=
  grouping.level :: grouping.deeper

/-- The first level that is not valid makes the error. -/
def validate (grouping : Grouping) : Except Fault Unit :=
  grouping.levels.forM Level.validate

end Grouping

end RecordQuery
