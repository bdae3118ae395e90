import RecordQuery.Condition.Basic
import RecordQuery.Error
import RecordQuery.FieldPath
import RecordQuery.Json.Order
import RecordQuery.Settings

/-!
# Checks

A check is a condition whose operands have been validated and whose relative dates have been
resolved. Compiling a condition either gives a check or the first fault in it, so that a malformed
description fails before any record is read. A check is passed by all values at a path together.
-/

namespace RecordQuery

open Json

/-- The bound of an order test. -/
inductive Bound where
  /-- The null bound, where having no value is the least. -/
  | absent
  | day (day : Int)
  | value (v : Value)

inductive Check where
  | blank
  | present
  | equals (v : Value)
  | differs (v : Value)
  | order (op : OrderOperator) (bound : Bound)
  | all (checks : List Check)
  | any (checks : List Check)
  | startsWith (start : String)
  | find (fields : List (FieldPath × Check))
  | findNone (fields : List (FieldPath × Check))

/-- The checks of a query. -/
abbrev QueryCheck := List (FieldPath × Check)

namespace Bound

/-- Whether one value is on the side of the bound that the operator asks for. A blank value is on
no side of a bound that is not null. -/
def admits (op : OrderOperator) (v : Value) : Bound → Bool
  | absent =>
    match op with
    | .less => false
    | .greater => !v.isBlank
    | .atMost => v.isBlank
    | .atLeast => true
  | day d =>
    !v.isBlank && (v.instant?.map fun t => op.accepts (compare t.day d)).getD false
  | value bound =>
    !v.isBlank && ((v.compare? bound).map op.accepts).getD false

end Bound

namespace Check

/-- Whether a value is a text with this start. -/
def hasStart (start : String) : Value → Bool
  | .text s => start.toList.isPrefixOf s.toList
  | _ => false

mutual

/-- Whether the values at a path pass together. Where there are none, an order test reads a null. -/
def passes (values : List Value) : Check → Bool
  | blank => values.all Value.isBlank
  | present => values.any fun v => !v.isBlank
  | equals expected => values.any fun v => v.strictEq expected
  | differs expected => values.all fun v => !v.strictEq expected
  | order op bound =>
    if values.isEmpty then bound.admits op .null else values.any fun v => bound.admits op v
  | all checks => passesAll values checks
  | any checks => passesAny values checks
  | startsWith start => values.any (hasStart start)
  | find fields => values.any fun v => matchesAll v fields
  | findNone fields => !values.any fun v => matchesAll v fields

def passesAll (values : List Value) : List Check → Bool
  | [] => true
  | check :: checks => check.passes values && passesAll values checks

def passesAny (values : List Value) : List Check → Bool
  | [] => false
  | check :: checks => check.passes values || passesAny values checks

/-- Whether the values of a document pass the check at every path. -/
def matchesAll (doc : Value) : List (FieldPath × Check) → Bool
  | [] => true
  | (path, check) :: fields => check.passes (path.extract doc) && matchesAll doc fields

end

end Check

namespace Operand

/-- The operand as a scalar, which a relative date is not. -/
def scalar (op : Operator) : Operand → Except Fault Value
  | value v =>
    if v.isScalar then .ok v else .error (.invalidOperand op .scalar v.kindName)
  | daysAgo days => .error (.invalidOperand op .scalar (daysAgo days).kindName)

/-- The operand as the bound of an order test. -/
def bound (op : Operator) (settings : Settings) : Operand → Except Fault Bound
  | daysAgo days =>
    match settings.now.daysBefore? days with
    | some t => .ok (.day t.day)
    | none => .error (.invalidOperand op .dayInRange (daysAgo days).kindName)
  | value .null => .ok .absent
  | value v => (Operand.scalar op (value v)).map .value

/-- The operand as a text. -/
def start (op : Operator) (operand : Operand) : Except Fault String := do
  match ← operand.scalar op with
  | .text s => .ok s
  | v => .error (.invalidOperand op .text v.kindName)

end Operand

namespace Condition

mutual

/-- The check of a condition, or its first fault. -/
def compile (settings : Settings) : Condition → Except Fault Check
  | equal operand => do
    match ← operand.scalar .equal with
    | .null => .ok .blank
    | v => .ok (.equals v)
  | unequal operand => do
    match ← operand.scalar .unequal with
    | .null => .ok .present
    | v => .ok (.differs v)
  | order op operand => return .order op (← operand.bound (.order op) settings)
  | all conditions => return .all (← compileAll settings conditions)
  | any conditions => return .any (← compileAll settings conditions)
  | startsWith operand => return .startsWith (← operand.start .startsWith)
  | find query => return .find (← compileQuery settings query)
  | findNone query => return .findNone (← compileQuery settings query)

def compileAll (settings : Settings) : List Condition → Except Fault (List Check)
  | [] => return []
  | condition :: conditions => do
    let check ← condition.compile settings
    let checks ← compileAll settings conditions
    return check :: checks

/-- The checks of a query, in the order of its paths. -/
def compileQuery (settings : Settings) : List (String × Condition) → Except Fault QueryCheck
  | [] => return []
  | (path, condition) :: entries => do
    let check ← condition.compile settings
    let fields ← compileQuery settings entries
    return (⟨path⟩, check) :: fields

end

end Condition

end RecordQuery
