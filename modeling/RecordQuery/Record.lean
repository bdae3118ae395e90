import RecordQuery.Json.Printer

/-!
# Records

Anything that can be viewed as a JSON document can be filtered, sorted and bucketed. A record is
identified by the `id` member of its document, unless its type says otherwise.
-/

namespace RecordQuery

open Json

/-- The member that identifies records and items of lists. -/
def Record.idField : String := "id"

class Record (α : Type) where
  document : α → Value
  id? (record : α) : Option Value := (document record).member? Record.idField

instance : Record Value where
  document := id

/-- An item with the document it is viewed as. -/
structure Documented (α : Type) where
  item : α
  document : Value

instance {α : Type} : Record (Documented α) where
  document := Documented.document

/-- The key that a value becomes when it names a member: texts, numbers and booleans do. -/
def memberKey? : Value → Option String
  | .text s => some s
  | .number n => some (Value.number n).toText
  | .boolean b => some (Value.boolean b).toText
  | _ => none

/-- Pairs of keys and values as a document, if every key can name a member. -/
def documentOfPairs? (pairs : List (Value × Value)) : Option Value := do
  let members ← pairs.mapM fun (key, v) => (memberKey? key).map (·, v)
  return .ofMembers members

end RecordQuery
