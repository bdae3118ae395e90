import RecordQuery.Json.Scalar
import RecordQuery.Keyed
import RecordQuery.Operator

/-!
# Conditions and queries

A condition is a test of the values found at one field path, as it is described. A query asks for
conditions on several paths and holds its entries in the order of the paths. The two nest: a `find`
condition carries a query for the elements found.
-/

namespace RecordQuery

open Json

/-- What a condition compares with. -/
inductive Operand where
  /-- The calendar day this many days before now. -/
  | daysAgo (days : Int)
  | value (v : Value)

namespace Operand

def null : Operand :=
  value .null

def isNull : Operand → Bool
  | value .null => true
  | _ => false

def kindName : Operand → String
  | daysAgo _ => "relative date"
  | value v => v.kindName

/-- Equality of structure. -/
def same : Operand → Operand → Bool
  | daysAgo m, daysAgo n => m == n
  | value a, value b => a.same b
  | _, _ => false

end Operand

inductive Condition where
  | equal (operand : Operand)
  | unequal (operand : Operand)
  | order (op : OrderOperator) (operand : Operand)
  | all (conditions : List Condition)
  | any (conditions : List Condition)
  | startsWith (operand : Operand)
  | find (query : List (String × Condition))
  | findNone (query : List (String × Condition))

/-- Conditions under their field paths, in the order of the paths. -/
abbrev Query := List (String × Condition)

/-- Alternative queries. -/
abbrev Statement := List Query

namespace Condition

instance : Inhabited Condition := ⟨all []⟩

def operator : Condition → Operator
  | equal _ => .equal
  | unequal _ => .unequal
  | order op _ => .order op
  | all _ => .all
  | any _ => .any
  | startsWith _ => .startsWith
  | find _ => .find
  | findNone _ => .findNone

/-- Every value is blank. -/
def isNull : Condition :=
  equal .null

/-- Some value is not blank. -/
def isPresent : Condition :=
  unequal .null

mutual

/-- Equality of structure. -/
def same : Condition → Condition → Bool
  | equal a, equal b => a.same b
  | unequal a, unequal b => a.same b
  | order f a, order g b => f == g && a.same b
  | all cs, all ds => sameAll cs ds
  | any cs, any ds => sameAll cs ds
  | startsWith a, startsWith b => a.same b
  | find p, find q => sameEntries p q
  | findNone p, findNone q => sameEntries p q
  | _, _ => false

def sameAll : List Condition → List Condition → Bool
  | [], [] => true
  | c :: cs, d :: ds => c.same d && sameAll cs ds
  | _, _ => false

def sameEntries : List (String × Condition) → List (String × Condition) → Bool
  | [], [] => true
  | (k, c) :: cs, (l, d) :: ds => k == l && c.same d && sameEntries cs ds
  | _, _ => false

end

end Condition

namespace Query

/-- Sets the condition on a path, in place of the one there before. -/
def insert (query : Query) (path : String) (condition : Condition) : Query :=
  Keyed.insert path condition query

/-- Adds every condition of another query. -/
def addAll (query other : Query) : Query :=
  other.foldl (fun q entry => Query.insert q entry.1 entry.2) query

end Query

end RecordQuery
