import RecordQuery.Operator
import RecordQuery.Decimal.Layout

/-!
# Errors

Every error is a fault of a description; records are never at fault. A fault found while a nested
part of a description is read makes the whole description unreadable, and is kept as its cause.
-/

namespace RecordQuery

/-- What an operator asks of its operand. -/
inductive Expectation where
  | scalar
  | text
  | dayInRange
  | query
deriving DecidableEq

def Expectation.message : Expectation → String
  | scalar => "a scalar"
  | text => "a string"
  | dayInRange => "a day offset within range"
  | query => "a nested query"

inductive Fault where
  | unknownOperator (tag : String)
  | invalidOperand (op : Operator) (expected : Expectation) (actual : String)
  | invalidInterval (width : Extended)
  | incompleteSelector
deriving DecidableEq

/-- A width is written in full, without an exponent, and a whole one without a point. -/
def widthLayout : Decimal.Layout where
  positional := none
  marksWhole := false
  tie := .upward

def Fault.message : Fault → String
  | unknownOperator tag => "unknown condition operator '" ++ tag ++ "'"
  | invalidOperand op expected actual =>
    "operator '" ++ op.tag ++ "' expects " ++ expected.message ++ ", got " ++ actual
  | invalidInterval width =>
    "bucket interval must be positive and finite, got " ++ widthLayout.text width
  | incompleteSelector => "sort selector needs both subId and subProp"

inductive Error where
  | fault (f : Fault)
  /-- A description that cannot be read, with the fault of its content if that is the cause. -/
  | unreadable (cause : Option Fault)
deriving DecidableEq

/-- The text of an error. What is wrong with the form of a description has no fixed text. -/
def Error.message? : Error → Option String
  | fault f => some f.message
  | unreadable cause => cause.map fun f => "invalid description: " ++ f.message

end RecordQuery
