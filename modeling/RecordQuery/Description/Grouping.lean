import RecordQuery.Bucket.Tally
import RecordQuery.Description.Reading

/-!
# Descriptions of groupings and buckets

A level of a grouping is a record of its field and options, of which `subBuckets` holds the next
level. A bucket is a record of its key, its count and the buckets inside.
-/

namespace RecordQuery

open Json

namespace DateUnit

def read (taken : Bool) (tree : Tree) : Reading DateUnit :=
  Reading.named taken (fun s => all.find? (·.name == s)) tree

def describe (unit : DateUnit) : Value :=
  .text unit.name

end DateUnit

namespace Grouping

structure Fields where
  field : Option String := none
  values : Option (Option (List Value)) := none
  interval : Option (Option Double) := none
  unit : Option (Option DateUnit) := none
  itemIds : Option (Option (List Value)) := none
  itemProperty : Option (Option String) := none
  deeper : Option (Option Grouping) := none

def names : List String :=
  ["fieldId", "values", "interval", "unit", "subFieldIds", "subFieldProp", "subBuckets"]

namespace Fields

/-- Reads a field other than the next level. -/
def readPlain (taken : Bool) (fields : Fields) (name : String) (tree : Tree) :
    Reading Fields := do
  match name, tree with
  | "fieldId", tree => return { fields with field := ← Reading.once fields.field (Reading.text tree) }
  | "values", tree =>
    return { fields with
      values := ← Reading.once fields.values (Reading.optional (Reading.list Reading.value) tree) }
  | "interval", tree =>
    return { fields with
      interval := ← Reading.once fields.interval (Reading.optional Reading.double tree) }
  | "unit", tree =>
    return { fields with
      unit := ← Reading.once fields.unit (Reading.optional (DateUnit.read taken) tree) }
  | "subFieldIds", tree =>
    return { fields with
      itemIds := ← Reading.once fields.itemIds (Reading.optional (Reading.list Reading.value) tree) }
  | "subFieldProp", tree =>
    return { fields with
      itemProperty := ← Reading.once fields.itemProperty (Reading.optional Reading.text tree) }
  | "subBuckets", .null => return { fields with deeper := ← Reading.once fields.deeper (.ok none) }
  | _, _ => Reading.malformed

/-- The grouping of these fields. -/
def build (fields : Fields) : Reading Grouping := do
  let field ← Reading.required fields.field
  return {
    level := {
      field := ⟨field⟩
      values := fields.values.join
      interval := fields.interval.join.map .finite
      unit := fields.unit.join
      itemIds := fields.itemIds.join
      itemProperty := fields.itemProperty.join }
    deeper := (fields.deeper.join.map levels).getD [] }

end Fields

mutual

/-- Reads a grouping, which may be part of something that was taken in as a whole. -/
def read (taken : Bool) : Tree → Reading Grouping
  | .object members => do (← readMembers taken {} members).build
  | .list items => do (← readItems taken {} names items).build
  | _ => Reading.malformed

def readMembers (taken : Bool) (fields : Fields) : List (Option String × Tree) → Reading Fields
  | [] => return fields
  | (none, _) :: _ => Reading.malformed
  | (some key, tree) :: rest => do
    if key ∈ names then
      let fields ← readField taken fields key tree
      readMembers taken fields rest
    else
      Reading.skip tree
      readMembers taken fields rest

def readItems (taken : Bool) (fields : Fields) : List String → List Tree → Reading Fields
  | _, [] => return fields
  | [], _ :: _ => Reading.malformed
  | name :: names, tree :: rest => do
    let fields ← readField taken fields name tree
    readItems taken fields names rest

def readField (taken : Bool) (fields : Fields) (name : String) : Tree → Reading Fields
  | .object members =>
    if name = "subBuckets" then do
      let grouping := do (← readMembers taken {} members).build
      return { fields with deeper := ← Reading.once fields.deeper (grouping.map some) }
    else fields.readPlain taken name (.object members)
  | .list items =>
    if name = "subBuckets" then do
      let grouping := do (← readItems taken {} names items).build
      return { fields with deeper := ← Reading.once fields.deeper (grouping.map some) }
    else fields.readPlain taken name (.list items)
  | tree => fields.readPlain taken name tree

end

end Grouping

namespace Level

/-- A width as a number; one that is not finite is written as null. -/
def describeWidth : Extended → Value
  | .finite d => .number (.real d)
  | .infinite _ | .undefined => .null

/-- The description of a level around that of the next one. -/
def describe (level : Level) (deeper : Option Value) : Value :=
  Description.object [("fieldId", some (.text level.field.raw)),
    ("values", level.values.map .list),
    ("interval", level.interval.map describeWidth),
    ("unit", level.unit.map DateUnit.describe),
    ("subFieldIds", level.itemIds.map .list),
    ("subFieldProp", level.itemProperty.map .text),
    ("subBuckets", deeper)]

end Level

namespace Grouping

/-- The description of a chain of levels. -/
def describeLevels : List Level → Option Value
  | [] => none
  | level :: deeper => some (level.describe (describeLevels deeper))

def describe (grouping : Grouping) : Value :=
  grouping.level.describe (describeLevels grouping.deeper)

end Grouping

namespace Bucket

structure Fields where
  id : Option (Option Value) := none
  count : Option Nat := none
  buckets : Option (List Bucket) := none

def names : List String :=
  ["id", "value", "buckets"]

namespace Fields

/-- Reads a field other than the buckets inside. -/
def readPlain (fields : Fields) (name : String) (tree : Tree) : Reading Fields := do
  match name with
  | "id" =>
    return { fields with id := ← Reading.once fields.id (Reading.optional Reading.value tree) }
  | "value" => return { fields with count := ← Reading.once fields.count (Reading.natural tree) }
  | _ => Reading.malformed

/-- The bucket of these fields. -/
def build (fields : Fields) : Reading Bucket := do
  return .mk fields.id.join (← Reading.required fields.count) (fields.buckets.getD [])

end Fields

mutual

def read : Tree → Reading Bucket
  | .object members => do (← readMembers {} members).build
  | .list items => do
    let fields ← readItems {} names items
    if fields.id.isNone then Reading.malformed else fields.build
  | _ => Reading.malformed

def readMembers (fields : Fields) : List (Option String × Tree) → Reading Fields
  | [] => return fields
  | (none, _) :: _ => Reading.malformed
  | (some key, tree) :: rest => do
    if key ∈ names then
      let fields ← readField fields key tree
      readMembers fields rest
    else
      Reading.skip tree
      readMembers fields rest

def readItems (fields : Fields) : List String → List Tree → Reading Fields
  | _, [] => return fields
  | [], _ :: _ => Reading.malformed
  | name :: names, tree :: rest => do
    let fields ← readField fields name tree
    readItems fields names rest

def readField (fields : Fields) (name : String) : Tree → Reading Fields
  | .list items =>
    if name = "buckets" then do
      return { fields with buckets := ← Reading.once fields.buckets (readAll items) }
    else fields.readPlain name (.list items)
  | tree => fields.readPlain name tree

def readAll : List Tree → Reading (List Bucket)
  | [] => return []
  | tree :: trees => do
    let bucket ← read tree
    let buckets ← readAll trees
    return bucket :: buckets

end

def readList : Tree → Reading (List Bucket) :=
  Reading.list read

mutual

/-- The description of a bucket; an absent key is written as null. -/
def describe : Bucket → Value
  | mk id count buckets =>
    Description.object [("id", some (id.getD .null)), ("value", some (.int count)),
      ("buckets", some (.list (describeAll buckets)))]

def describeAll : List Bucket → List Value
  | [] => []
  | bucket :: buckets => bucket.describe :: describeAll buckets

end

end Bucket

end RecordQuery
