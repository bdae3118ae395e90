import RecordQuery.Description.Condition
import RecordQuery.Filter.Basic

/-!
# Descriptions of sort rules and filters

The item selector of a sort rule is described by `subId` and `subProp`, which come together or not
at all. A filter is described by its statements, its sort rule and its limit.
-/

namespace RecordQuery

open Json

namespace Direction

def read (tree : Tree) : Reading Direction :=
  Reading.named false (fun s => all.find? (·.name == s)) tree

def describe (direction : Direction) : Value :=
  .text direction.name

end Direction

namespace ItemSelector

structure Fields where
  id : Option Value := none
  property : Option String := none

def readField (fields : Fields) (name : String) (tree : Tree) : Reading Fields := do
  match name with
  | "subId" => return { fields with id := ← Reading.once fields.id (Reading.value tree) }
  | "subProp" => return { fields with property := ← Reading.once fields.property (Reading.text tree) }
  | _ => Reading.malformed

def read (tree : Tree) : Reading ItemSelector := do
  let fields ← Reading.record ["subId", "subProp"] readField {} tree
  return ⟨← Reading.required fields.id, ← Reading.required fields.property⟩

def describe (selector : ItemSelector) : Value :=
  Description.object [("subId", some selector.id), ("subProp", some (.text selector.property))]

end ItemSelector

namespace SortRule

structure Fields where
  field : Option String := none
  id : Option (Option Value) := none
  property : Option (Option String) := none
  direction : Option Direction := none

def readField (fields : Fields) (name : String) (tree : Tree) : Reading Fields := do
  match name with
  | "field" => return { fields with field := ← Reading.once fields.field (Reading.text tree) }
  | "subId" =>
    return { fields with id := ← Reading.once fields.id (Reading.optional Reading.value tree) }
  | "subProp" =>
    return { fields with
      property := ← Reading.once fields.property (Reading.optional Reading.text tree) }
  | "direction" =>
    return { fields with direction := ← Reading.once fields.direction (Direction.read tree) }
  | _ => Reading.malformed

/-- The selector of its two halves. -/
def selectorOf : Option Value → Option String → Except Fault (Option ItemSelector)
  | some id, some property => .ok (some ⟨id, property⟩)
  | none, none => .ok none
  | _, _ => .error .incompleteSelector

def read (tree : Tree) : Reading SortRule := do
  let fields ← Reading.record ["field", "subId", "subProp", "direction"] readField {} tree
  let field ← Reading.required fields.field
  let selector ← Reading.ofFaulty (selectorOf fields.id.join fields.property.join)
  return ⟨⟨field⟩, selector, fields.direction.getD .ascending⟩

def describe (rule : SortRule) : Value :=
  Description.object [("field", some (.text rule.field.raw)),
    ("subId", rule.selector.map (·.id)),
    ("subProp", rule.selector.map fun selector => .text selector.property),
    ("direction", some rule.direction.describe)]

end SortRule

namespace Filter

structure Fields where
  statements : Option (List Statement) := none
  sort : Option (Option SortRule) := none
  limit : Option (Option Nat) := none

def readField (fields : Fields) (name : String) (tree : Tree) : Reading Fields := do
  match name with
  | "statements" =>
    return { fields with
      statements := ← Reading.once fields.statements (Statement.readAll tree) }
  | "sort" =>
    return { fields with sort := ← Reading.once fields.sort (Reading.optional SortRule.read tree) }
  | "limit" =>
    return { fields with
      limit := ← Reading.once fields.limit (Reading.optional Reading.natural tree) }
  | _ => Reading.malformed

def read (tree : Tree) : Reading Filter := do
  let fields ← Reading.record ["statements", "sort", "limit"] readField {} tree
  return ⟨fields.statements.getD [], fields.sort.join, fields.limit.join⟩

def describe (filter : Filter) : Value :=
  Description.object [("statements", some (Statement.describeAll filter.statements)),
    ("sort", filter.sort.map SortRule.describe),
    ("limit", filter.limit.map fun n => .int n)]

end Filter

end RecordQuery
