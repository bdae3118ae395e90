import RecordQuery.Description.Condition
import RecordQuery.Description.Grouping
import RecordQuery.Pipeline

/-!
# Descriptions of pipelines

A step is an object with its kind under `type`, anywhere among its members, or a list that starts
with its kind. The kind decides how the rest is read, so a step is taken in as a whole first. A kind
that is not known makes an unknown step.
-/

namespace RecordQuery

open Json

namespace Step

def readStatements (before : Option (List Statement)) (_ : String) (tree : Tree) :
    Reading (Option (List Statement)) :=
  Reading.once before (Statement.readAll tree)

def readOptions (before : Option Grouping) (_ : String) (tree : Tree) :
    Reading (Option Grouping) :=
  Reading.once before (Grouping.read true tree)

/-- Reads what belongs to a kind from the other members of the step. -/
def readMembers (kind : String) (members : List (Option String × Tree)) : Reading Step := do
  if kind = "filter" then
    return filter ((← Reading.members ["statements"] readStatements none members).getD [])
  else if kind = "buckets" then
    let options ← Reading.members ["options"] readOptions none members
    return buckets (← Reading.required options)
  else return unknown

/-- Reads what belongs to a kind from the other items of the step. -/
def readItems (kind : String) (items : List Tree) : Reading Step := do
  if kind = "filter" then
    return filter ((← Reading.items readStatements none ["statements"] items).getD [])
  else if kind = "buckets" then
    let options ← Reading.items readOptions none ["options"] items
    return buckets (← Reading.required options)
  else if items.isEmpty then return unknown
  else Reading.malformed

def read (tree : Tree) : Reading Step := do
  let _ ← Reading.value tree
  match tree with
  | .object members =>
    match members.partition (·.1 == some "type") with
    | ([(_, .text kind)], others) => readMembers kind others
    | _ => Reading.malformed
  | .list (.text kind :: others) => readItems kind others
  | _ => Reading.malformed

def describe : Step → Value
  | filter statements =>
    Description.object [("type", some (.text "filter")),
      ("statements", some (Statement.describeAll statements))]
  | buckets grouping =>
    Description.object [("type", some (.text "buckets")), ("options", some grouping.describe)]
  | unknown => Description.object [("type", some (.text "unknown"))]

end Step

namespace Pipeline

def readSteps (before : Option (List Step)) (_ : String) (tree : Tree) :
    Reading (Option (List Step)) :=
  Reading.once before (Reading.list Step.read tree)

def read (tree : Tree) : Reading Pipeline := do
  let steps ← Reading.record ["steps"] readSteps none tree
  return ⟨steps.getD []⟩

def describe (pipeline : Pipeline) : Value :=
  Description.object [("steps", some (.list (pipeline.steps.map Step.describe)))]

end Pipeline

end RecordQuery
