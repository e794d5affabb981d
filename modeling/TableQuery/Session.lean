/-
A session: the tables and functions that queries are executed with.
-/
import TableQuery.Function.Window
import TableQuery.Statement.Execution
import TableQuery.Statement.Parser

namespace TableQuery

/-- Why a session refuses a request. -/
inductive SessionError where
  | parse (e : ParseError)
  | execution (e : ExecutionError)
  | table (name : String) (e : TableError)

/-- The wording of an error, with its causes behind it. -/
def SessionError.messages : SessionError → List String
  | parse e => "Failed to parse SQL" :: e.messages
  | execution e => [e.message]
  | table name e => [s!"Invalid rows for table {name}", e.message]

/-- The tables and functions of a session. -/
structure Session where
  tables : Tables := .empty
  functions : Registry := .builtin

namespace Session

/-- Puts a view under a name in place of what stood there. -/
def registerView (s : Session) (name : String) (v : View) : Session :=
  { s with tables := s.tables.put name v }

/-- Puts a valid view under a name. -/
def registerTable (s : Session) (name : String) (v : View) : Except SessionError Session :=
  match v.undeclared? with
  | some e => .error (.table name e)
  | none => .ok (s.registerView name v)

/-- Puts a function under a name in place of what stood there. -/
def registerFunction (s : Session) (name : String) (f : Function) : Session :=
  { s with functions := s.functions.register name f }

/-- The names of all tables in order. -/
def tableNames (s : Session) : List String := s.tables.labels.mergeSort fun a b => a ≤ b

/-- The result of a statement. -/
def execute (s : Session) (statement : Statement) : Except ExecutionError View :=
  statement.execute { functions := s.functions } s.tables

/-- The result of the one query that a text is. -/
def query (s : Session) (text : String) : Except SessionError View :=
  match Statement.parse text with
  | .error e => .error (.parse e)
  | .ok statement =>
    match s.execute statement with
    | .error e => .error (.execution e)
    | .ok v => .ok v

end Session

end TableQuery
