/-
Execution of queries over named tables.

A query takes its rows from its source, keeps those for which its condition is true, groups them,
keeps some of the groups, and selects. A query inside the source of another is executed in a context
of its own, so that neither sees the names of the other.
-/
import TableQuery.Context.Join
import TableQuery.Context.Projection
import TableQuery.Statement.Basic

namespace TableQuery

/-- Tables under their names. -/
abbrev Tables := Labelled View

namespace Step

/-- What a query does with the rows of its source. -/
def runClauses (engine : Engine) (c : Clauses) : Step View := do
  c.condition.forM (filter engine)
  if !c.groupBy.isEmpty then discard (groupBy engine c.groupBy)
  c.having.forM (filter engine)
  select engine c.items c.quantifier c.orderBy c.limit

end Step

namespace Statement

mutual

/-- The result of a query. -/
def execute (engine : Engine) (tables : Tables) : Statement → Except ExecutionError View
  | .select source clauses => Step.runIn {} do
    discard (loadSource engine tables source)
    Step.runClauses engine clauses

/-- Makes the rows of a source those of the context, and gives the aliases of its views. -/
def loadSource (engine : Engine) (tables : Tables) : Source → Step (List String)
  | .nothing => do
    Step.singleRow
    return []
  | .factor f => do
    let v ← Step.lift (loadFactor engine tables f)
    Step.addView f.name v
    return [f.name]
  | .leftJoin left right on => do
    let aliases ← loadSource engine tables left
    let v ← Step.lift (loadFactor engine tables right)
    Step.leftJoin engine aliases right.name v on

/-- The rows of a table or of a query. -/
def loadFactor (engine : Engine) (tables : Tables) : Factor → Except ExecutionError View
  | .table name _ =>
    match tables.get? name with
    | some v => .ok v
    | none => .error (.unknownTable name)
  | .derived query _ => execute engine tables query

end

end Statement

end TableQuery
