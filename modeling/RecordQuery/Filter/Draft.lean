import RecordQuery.Filter.Basic

/-!
# Building filters step by step

A draft takes field conditions one at a time. They go into the query at hand until `Draft.or` opens
an alternative query, or `Draft.and` another statement; either opens nothing until the next
condition arrives. A complete statement can be put in at any point and is never added to.
-/

namespace RecordQuery

/-- Where the next condition goes. -/
inductive Opening where
  | sameQuery
  | newQuery
  | newStatement
deriving DecidableEq

structure Draft where
  filter : Filter := {}
  opening : Opening := .newStatement

namespace Draft

/-- Changes the last of a list, if there is one. -/
def changeLast {α : Type} (f : α → α) : List α → List α
  | [] => []
  | [a] => [f a]
  | a :: b :: as => a :: changeLast f (b :: as)

/-- Changes the last query of the last statement. -/
def updateLast (update : Query → Query) (statements : List Statement) : List Statement :=
  changeLast (changeLast update) statements

/-- The statements with the query at hand put in last. -/
def openQuery (opening : Opening) (statements : List Statement) : List Statement :=
  match opening, statements with
  | .sameQuery, _ :: _ => statements
  | .newQuery, _ :: _ => changeLast (· ++ [[]]) statements
  | _, _ => statements ++ [[[]]]

/-- Changes the query at hand. -/
def withQuery (draft : Draft) (update : Query → Query) : Draft where
  filter := { draft.filter with
    statements := updateLast update (openQuery draft.opening draft.filter.statements) }
  opening := .sameQuery

/-- Adds a condition to the query at hand. -/
def field (draft : Draft) (path : String) (condition : Condition) : Draft :=
  draft.withQuery fun query => Query.insert query path condition

/-- Adds every condition of a query to the query at hand. -/
def query (draft : Draft) (other : Query) : Draft :=
  draft.withQuery fun query => Query.addAll query other

/-- Adds a condition of equality. -/
def equal (draft : Draft) (path : String) (operand : Operand) : Draft :=
  draft.field path (.equal operand)

/-- The next condition starts an alternative query, if there is one to be an alternative to. -/
def or (draft : Draft) : Draft :=
  if draft.opening = .sameQuery then { draft with opening := .newQuery } else draft

/-- The next condition starts a statement. -/
def and (draft : Draft) : Draft :=
  { draft with opening := .newStatement }

/-- Puts in a complete statement. -/
def statement (draft : Draft) (queries : Statement) : Draft where
  filter := { draft.filter with statements := draft.filter.statements ++ [queries] }
  opening := .newStatement

def sortBy (draft : Draft) (rule : SortRule) : Draft :=
  { draft with filter := { draft.filter with sort := some rule } }

def limit (draft : Draft) (n : Nat) : Draft :=
  { draft with filter := { draft.filter with limit := some n } }

end Draft

end RecordQuery
