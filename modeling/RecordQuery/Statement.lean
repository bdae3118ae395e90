import RecordQuery.Condition.Check
import RecordQuery.Record

/-!
# Statements

A query holds of a document if all its conditions do, a statement if one of its queries does, and a
list of statements if all of them do: `[[p], [q, r]]` reads `p` and (`q` or `r`).
-/

namespace RecordQuery

open Json

namespace Query

def compile (settings : Settings) (query : Query) : Except Fault QueryCheck :=
  Condition.compileQuery settings query

end Query

/-- Statements whose queries have been compiled. -/
abbrev StatementChecks := List (List QueryCheck)

namespace Statement

/-- The checks of all statements, or the first fault among them. -/
def compileAll (settings : Settings) (statements : List Statement) :
    Except Fault StatementChecks :=
  statements.mapM fun queries => queries.mapM (Query.compile settings)

end Statement

namespace StatementChecks

/-- Whether every statement has a query that matches the document. -/
def accepts (statements : StatementChecks) (doc : Value) : Bool :=
  statements.all fun queries => queries.any (Check.matchesAll doc)

/-- The records that every statement holds of. -/
def keep {α : Type} [Record α] (statements : StatementChecks) (records : List α) : List α :=
  records.filter fun record => statements.accepts (Record.document record)

end StatementChecks

end RecordQuery
