/-
Execution of queries on a stack of contexts.

Every query has a context of its own, which is put on top of the stack while the query is executed
and taken off afterwards. A query inside the source of another is executed on top of it.
-/
import TableQuery.Statement.Execution

namespace TableQuery

/-- Why execution on a stack fails. -/
inductive StackError where
  /-- A step was to be taken without a context. -/
  | noActiveStatement
  | execution (e : ExecutionError)

/-- A step on a stack of contexts, of which the first is on top. -/
abbrev StackStep (α : Type) := EStateM StackError (List Context) α

namespace StackStep

variable {α : Type}

/-- A step in the context on top. -/
def current (s : Step α) : StackStep α
  | [] => .error .noActiveStatement []
  | c :: below =>
    match s c with
    | .ok a d => .ok a (d :: below)
    | .error e d => .error (.execution e) (d :: below)

/-- A step on top of which a new context stands, which is taken off even if the step fails. -/
def nested (s : StackStep α) : StackStep α := fun stack =>
  match s ({} :: stack) with
  | .ok a after => .ok a after.tail
  | .error e after => .error e after.tail

/-- A result that does not depend on the stack. -/
def ofResult (r : Except ExecutionError α) : StackStep α :=
  match r with
  | .ok a => pure a
  | .error e => throw (.execution e)

end StackStep

namespace Statement

open StackStep

mutual

/-- The result of a query. -/
def executeOn (engine : Engine) (tables : Tables) : Statement → StackStep View
  | .select source clauses => nested do
    discard (loadSourceOn engine tables source)
    current (Step.runClauses engine clauses)

/-- Makes the rows of a source those of the context on top, and gives the aliases of its views. -/
def loadSourceOn (engine : Engine) (tables : Tables) : Source → StackStep (List String)
  | .nothing => do
    current Step.singleRow
    return []
  | .factor f => do
    let v ← loadFactorOn engine tables f
    current (Step.addView f.name v)
    return [f.name]
  | .leftJoin left right on => do
    let aliases ← loadSourceOn engine tables left
    let v ← loadFactorOn engine tables right
    current (Step.leftJoin engine aliases right.name v on)

/-- The rows of a table or of a query. -/
def loadFactorOn (engine : Engine) (tables : Tables) : Factor → StackStep View
  | .table name _ =>
    match tables.get? name with
    | some v => pure v
    | none => throw (.execution (.unknownTable name))
  | .derived query _ => executeOn engine tables query

end

end Statement

end TableQuery
