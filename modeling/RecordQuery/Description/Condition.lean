import RecordQuery.Condition.Basic
import RecordQuery.Description.Reading

/-!
# Descriptions of conditions

A condition is described by its operator's tag, in any case, and the field its operator uses:
`value`, `conditions` or `query`. The fields it does not use are read as well, and then dropped. An
operand is a relative date if it is an object with one integer `daysAgo`, and a plain value
otherwise.
-/

namespace RecordQuery

open Json

namespace Operand

/-- The days of an object with exactly one `daysAgo`, a signed integer of 64 bits. -/
def daysAgo? : Tree → Option Int
  | .object members =>
    match members.filter (·.1 == some "daysAgo") with
    | [(_, .number (.integer n _))] => if n < Word.half then some n else none
    | _ => none
  | _ => none

def read (tree : Tree) : Reading Operand := do
  let v ← Reading.value tree
  match daysAgo? tree with
  | some days => return daysAgo days
  | none => return value v

def describe : Operand → Value
  | daysAgo days => .ofMembers [("daysAgo", .int days)]
  | value v => v

end Operand

/-- The fields of a condition, as far as they have been read. -/
structure ConditionFields where
  op : Option String := none
  value : Option (Option Operand) := none
  conditions : Option (List Condition) := none
  query : Option (Option Query) := none

namespace ConditionFields

def names : List String :=
  ["op", "value", "conditions", "query"]

/-- Reads a field that holds no condition. -/
def readPlain (fields : ConditionFields) (name : String) (tree : Tree) :
    Reading ConditionFields := do
  match name, tree with
  | "op", tree => return { fields with op := ← Reading.once fields.op (Reading.text tree) }
  | "value", tree =>
    return { fields with
      value := ← Reading.once fields.value (Reading.optional Operand.read tree) }
  | "query", .null => return { fields with query := ← Reading.once fields.query (.ok none) }
  | _, _ => Reading.malformed

/-- The query of a condition whose operator needs one. -/
def queryFor (fields : ConditionFields) (op : Operator) : Except Fault Query :=
  match fields.query.join with
  | some query => .ok query
  | none => .error (.invalidOperand op .query "nothing")

/-- The condition of these fields. -/
def build (tag : String) (fields : ConditionFields) : Except Fault Condition :=
  let operand := fields.value.join.getD .null
  let conditions := fields.conditions.getD []
  match Operator.ofTag? tag with
  | none => .error (.unknownOperator tag)
  | some .equal => .ok (.equal operand)
  | some .unequal => .ok (.unequal operand)
  | some (.order op) => .ok (.order op operand)
  | some .startsWith => .ok (.startsWith operand)
  | some .all => .ok (.all conditions)
  | some .any => .ok (.any conditions)
  | some .find => (fields.queryFor .find).map .find
  | some .findNone => (fields.queryFor .findNone).map .findNone

end ConditionFields

namespace Condition

mutual

def read : Tree → Reading Condition
  | .object members => do
    let fields ← readMembers {} members
    Reading.ofFaulty (fields.build (← Reading.required fields.op))
  | .list items => do
    let fields ← readItems {} ConditionFields.names items
    Reading.ofFaulty (fields.build (← Reading.required fields.op))
  | _ => Reading.malformed

def readMembers (fields : ConditionFields) :
    List (Option String × Tree) → Reading ConditionFields
  | [] => return fields
  | (none, _) :: _ => Reading.malformed
  | (some key, tree) :: rest => do
    if key ∈ ConditionFields.names then
      let fields ← readField fields key tree
      readMembers fields rest
    else
      Reading.skip tree
      readMembers fields rest

def readItems (fields : ConditionFields) : List String → List Tree → Reading ConditionFields
  | _, [] => return fields
  | [], _ :: _ => Reading.malformed
  | name :: names, tree :: rest => do
    let fields ← readField fields name tree
    readItems fields names rest

def readField (fields : ConditionFields) (name : String) : Tree → Reading ConditionFields
  | .list items =>
    if name = "conditions" then do
      return { fields with conditions := ← Reading.once fields.conditions (readAll items) }
    else fields.readPlain name (.list items)
  | .object members =>
    if name = "query" then do
      return { fields with
        query := ← Reading.once fields.query ((readQuery [] members).map some) }
    else fields.readPlain name (.object members)
  | tree => fields.readPlain name tree

def readAll : List Tree → Reading (List Condition)
  | [] => return []
  | tree :: trees => do
    let condition ← read tree
    let conditions ← readAll trees
    return condition :: conditions

/-- Reads the entries of a query into one read so far. The last condition on a path counts. -/
def readQuery (query : Query) : List (Option String × Tree) → Reading Query
  | [] => return query
  | (none, _) :: _ => Reading.malformed
  | (some path, tree) :: rest => do
    let condition ← read tree
    readQuery (Query.insert query path condition) rest

end

/-- Reads the fields of a condition that has not been put together yet. -/
def readFields : Tree → Reading (String × ConditionFields)
  | .object members => do
    let fields ← readMembers {} members
    return (← Reading.required fields.op, fields)
  | .list items => do
    let fields ← readItems {} ConditionFields.names items
    return (← Reading.required fields.op, fields)
  | _ => Reading.malformed

/-- A condition from its description. A fault of the condition itself, and not of one inside it,
is its own error. -/
def ofText (text : String) : Except Error Condition :=
  Description.loadAnd readFields (fun (tag, fields) => fields.build tag) text

/-- The description of a condition with an operand, which is written even if it is null. -/
def simple (op : Operator) (operand : Operand) : Value :=
  Description.object [("op", some (.text op.tag)), ("value", some operand.describe)]

/-- The description of a condition on the conditions inside it, left out if there are none. -/
def composite (op : Operator) (conditions : List Value) : Value :=
  Description.object [("op", some (.text op.tag)),
    ("conditions", if conditions.isEmpty then none else some (.list conditions))]

/-- The description of a condition with a query. -/
def nested (op : Operator) (entries : List (String × Value)) : Value :=
  Description.object [("op", some (.text op.tag)), ("query", some (.object entries))]

mutual

def describe : Condition → Value
  | equal operand => simple .equal operand
  | unequal operand => simple .unequal operand
  | order op operand => simple (.order op) operand
  | startsWith operand => simple .startsWith operand
  | all conditions => composite .all (describeAll conditions)
  | any conditions => composite .any (describeAll conditions)
  | find query => nested .find (describeEntries query)
  | findNone query => nested .findNone (describeEntries query)

def describeAll : List Condition → List Value
  | [] => []
  | condition :: conditions => condition.describe :: describeAll conditions

def describeEntries : List (String × Condition) → List (String × Value)
  | [] => []
  | (path, condition) :: entries => (path, condition.describe) :: describeEntries entries

end

end Condition

namespace Query

def read : Tree → Reading Query
  | .object members => Condition.readQuery [] members
  | _ => Reading.malformed

def describe (query : Query) : Value :=
  .object (Condition.describeEntries query)

end Query

namespace Statement

def read : Tree → Reading Statement :=
  Reading.list Query.read

def readAll : Tree → Reading (List Statement) :=
  Reading.list read

def describe (queries : Statement) : Value :=
  .list (queries.map Query.describe)

def describeAll (statements : List Statement) : Value :=
  .list (statements.map describe)

end Statement

end RecordQuery
