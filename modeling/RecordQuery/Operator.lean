/-!
# Operators

The tags of conditions, and what an order operator makes of an ordering.
-/

namespace RecordQuery

/-- The operators that compare by order. -/
inductive OrderOperator where
  | less
  | greater
  | atMost
  | atLeast
deriving DecidableEq

namespace OrderOperator

/-- Whether an ordering of value against bound satisfies the operator. -/
def accepts : OrderOperator → Ordering → Bool
  | less, o => o == .lt
  | greater, o => o == .gt
  | atMost, o => o != .gt
  | atLeast, o => o != .lt

end OrderOperator

inductive Operator where
  | equal
  | unequal
  | order (op : OrderOperator)
  | all
  | any
  | startsWith
  | find
  | findNone
deriving DecidableEq

namespace Operator

def every : List Operator :=
  [equal, unequal, order .less, order .greater, order .atMost, order .atLeast, all, any,
    startsWith, find, findNone]

def tag : Operator → String
  | equal => "EQ"
  | unequal => "NEQ"
  | order .less => "LT"
  | order .greater => "GT"
  | order .atMost => "LTE"
  | order .atLeast => "GTE"
  | all => "ALL"
  | any => "ANY"
  | startsWith => "PREFIX"
  | find => "FIND"
  | findNone => "NFIND"

/-- The operator of a tag in any ASCII case. -/
def ofTag? (tag : String) : Option Operator :=
  every.find? fun op => op.tag.toLower == tag.toLower

/-- Whether an ordering satisfies the operator; only order operators can be satisfied. -/
def accepts : Operator → Ordering → Bool
  | order op, o => op.accepts o
  | _, _ => false

end Operator

end RecordQuery
