import RecordQuery.FieldPath
import RecordQuery.Json.Order
import RecordQuery.Record

/-!
# Sorting records

Records are sorted by the value at a field, or by a property of one item of a list field. Records
without such a value come last in either direction; records with equal values are ordered by their
identifiers, and the direction turns both orders round.
-/

namespace RecordQuery

open Json

inductive Direction where
  | ascending
  | descending
deriving DecidableEq

namespace Direction

def all : List Direction :=
  [ascending, descending]

def name : Direction → String
  | ascending => "ASC"
  | descending => "DESC"

def apply : Direction → Ordering → Ordering
  | ascending, o => o
  | descending, o => o.swap

end Direction

/-- Picks the item of a list with an identifier, and a property of it. -/
structure ItemSelector where
  id : Value
  property : String

namespace ItemSelector

/-- Whether the identifier of an item is strictly equal to `id`. -/
def identifies (id : Value) (item : Value) : Bool :=
  ((item.member? Record.idField).map fun v => v.strictEq id).getD false

/-- The property of the first item with the identifier. -/
def select? (selector : ItemSelector) (items : List Value) : Option Value :=
  items.find? (identifies selector.id) >>= Value.member? selector.property

end ItemSelector

structure SortRule where
  field : FieldPath
  selector : Option ItemSelector
  direction : Direction

/-- The order of identifiers. A missing one comes first. -/
def compareIds : Option Value → Option Value → Ordering
  | none, none => .eq
  | none, some _ => .lt
  | some _, none => .gt
  | some a, some b => a.sortCompare b

namespace SortRule

/-- What the value at the field gives to sort by. A list is of use with a selector only, and
everything else without one only. -/
def resolve? : Option ItemSelector → Value → Option Value
  | some selector, .list items => selector.select? items
  | some _, _ => none
  | none, .list _ => none
  | none, v => some v

/-- The value a document is sorted by. -/
def value? (rule : SortRule) (doc : Value) : Option Value :=
  (rule.field.lookup? doc >>= resolve? rule.selector).filter (!·.isNull)

variable {α : Type} [Record α]

def compare (rule : SortRule) (a b : α) : Ordering :=
  let byId := compareIds (Record.id? a) (Record.id? b)
  match rule.value? (Record.document a), rule.value? (Record.document b) with
  | none, none => rule.direction.apply byId
  | none, some _ => .gt
  | some _, none => .lt
  | some v, some w => rule.direction.apply ((v.sortCompare w).then byId)

/-- The records in order, equal ones as they were. -/
def apply (rule : SortRule) (records : List α) : List α :=
  records.mergeSort fun a b => (rule.compare a b).isLE

end SortRule

end RecordQuery
