/-
Queries.

A statement takes its rows from a source, which is a table or another query with any number of
tables joined to it, and its clauses say what becomes of them.
-/
import TableQuery.Expr.Basic

namespace TableQuery

/-- What a query does with the rows of its source. -/
structure Clauses where
  quantifier : Option Quantifier
  items : List SelectItem
  condition : Option Expr
  groupBy : List Expr
  having : Option Expr
  orderBy : List OrderItem
  limit : Option Limit

mutual

/-- A query. -/
inductive Statement where
  | select (source : Source) (clauses : Clauses)

/-- Where a query takes its rows from. -/
inductive Source where
  /-- A single row without fields. -/
  | nothing
  | factor (factor : Factor)
  /-- All rows on the left, each with the rows on the right for which the condition is true. -/
  | leftJoin (left : Source) (right : Factor) (on : Expr)

/-- A table by its name, or the result of a query. -/
inductive Factor where
  | table (name : String) (renamed : Option String)
  | derived (query : Statement) (name : String)

end

/-- The name by which the fields of a factor are addressed. -/
def Factor.name : Factor → String
  | table name renamed => renamed.getD name
  | derived _ name => name

/-- The clauses of a query. -/
def Statement.clauses : Statement → Clauses
  | select _ clauses => clauses

/-- The source of a query. -/
def Statement.source : Statement → Source
  | select source _ => source

end TableQuery
