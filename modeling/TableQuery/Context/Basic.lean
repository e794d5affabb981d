/-
The state of a query while it is executed.

A context holds the current frame, tables by which fields without a table are resolved, the values
remembered for every row, and what has been noticed about plain columns and aggregates. Steps of a
query are actions on a context that may fail.
-/
import TableQuery.Context.Error
import TableQuery.Context.Frame

namespace TableQuery

/-- The state of a query. -/
structure Context where
  frame : Frame := {}
  /-- The rows are fixed, by a first view or as a single row. -/
  hasSource : Bool := false
  /-- The alias of the one view that declares a field. -/
  direct : Labelled String := .empty
  /-- The aliases of the several views that declare a field, in order. -/
  ambiguous : Labelled (List String) := .empty
  /-- The values of expressions under their labels, for every row. -/
  memo : Array (Labelled Value) := #[]
  /-- A field was read outside the arguments of an aggregate. -/
  sawPlainColumn : Bool := false
  /-- An aggregate has turned all rows into one group. -/
  collapsed : Bool := false
  /-- An aggregate was evaluated over a group. -/
  aggregated : Bool := false
  /-- The rows were grouped by keys. -/
  grouped : Bool := false
  /-- There were no rows, and a row of Null stands in for them. -/
  sourceEmpty : Bool := false
  /-- The group without rows that grouping no rows leaves behind. -/
  emptyGroup : Option Frame := none
  deriving Inhabited

/-- What queries are executed with. -/
structure Engine where
  functions : Registry
  /-- Values are remembered while a row is worked on, rather than computed anew. -/
  remembers : Bool := true

/-- A step of a query. -/
abbrev Step (α : Type) := EStateM ExecutionError Context α

namespace Context

/-- The count of rows. -/
def size (c : Context) : Nat := c.frame.size

/-! ### Resolution of fields -/

/-- Adds an alias to the ordered aliases of a field, once. -/
def addOwner (owner : String) : List String → List String
  | [] => [owner]
  | o :: rest =>
    if owner = o then o :: rest
    else if owner < o then owner :: o :: rest
    else o :: addOwner owner rest

/-- Notes that the view with the given alias declares a field. -/
def registerField (table : String) (c : Context) (field : String) : Context :=
  match c.ambiguous.get? field with
  | some owners => { c with ambiguous := c.ambiguous.put field (addOwner table owners) }
  | none =>
    match c.direct.get? field with
    | some owner =>
      if owner = table then c
      else { c with
        direct := c.direct.erase field
        ambiguous := c.ambiguous.put field (addOwner table [owner]) }
    | none => { c with direct := c.direct.put field table }

/-- Notes the fields of a view. -/
def registerFields (c : Context) (table : String) (fields : List String) : Context :=
  fields.foldl (registerField table) c

/-- Makes the tables of fields anew from the current views. -/
def rebuildFields (c : Context) : Context :=
  c.frame.views.foldl (fun c (table, v) => c.registerFields table v.fields)
    { c with direct := .empty, ambiguous := .empty }

/-- The alias of the only view that declares a field. -/
def resolve (c : Context) (field : String) : Except ExecutionError String :=
  match c.direct.get? field with
  | some table => .ok table
  | none =>
    match c.ambiguous.get? field with
    | some owners => .error (.ambiguousField field owners)
    | none => .error (if c.collapsed then .mixedAggregate else .unknownField field)

/-- Some view declares the field. -/
def knows (c : Context) (field : String) : Bool := c.direct.has field || c.ambiguous.has field

/-! ### Rows -/

/-- A context over a frame of its own. -/
def ofFrame (f : Frame) : Context :=
  { frame := f, hasSource := true, memo := .replicate f.size .empty : Context }.rebuildFields

/-- Replaces all rows and forgets their values. -/
def replaceFrame (c : Context) (f : Frame) : Context :=
  { c with frame := f, memo := .replicate f.size .empty }

/-- Selects rows and keeps their values. -/
def reorder (c : Context) (places : List Nat) : Context :=
  { c with
    frame := c.frame.take places
    memo := (places.map fun i => (c.memo[i]?).getD .empty).toArray }

@[simp] theorem size_replaceFrame (c : Context) (f : Frame) : (c.replaceFrame f).size = f.size :=
  rfl

@[simp] theorem size_memo_replaceFrame (c : Context) (f : Frame) :
    (c.replaceFrame f).memo.size = f.size := Array.size_replicate

@[simp] theorem size_reorder (c : Context) (places : List Nat) :
    (c.reorder places).size = places.length := Frame.size_take c.frame places

@[simp] theorem size_memo_reorder (c : Context) (places : List Nat) :
    (c.reorder places).memo.size = places.length := List.length_map _

/-- The value remembered for a row under a label, or else the one that its group has as a key. -/
def remembered? (c : Context) (engine : Engine) (row : Nat) (label : String) : Option Value :=
  let remembered := if engine.remembers then (c.memo[row]?).bind (·.get? label) else none
  remembered.or ((c.frame.rows[row]?).bind (·.keys.get? label))

/-- Remembers a value for a row under a label. -/
def remember (c : Context) (engine : Engine) (row : Nat) (label : String) (v : Value) : Context :=
  if engine.remembers then { c with memo := c.memo.modify row (·.put label v) } else c

end Context

namespace Step

/-- A result that does not depend on the state. -/
def lift {α : Type} (r : Except ExecutionError α) : Step α :=
  match r with
  | .ok a => pure a
  | .error e => throw e

/-- The result of a step in a context of its own. -/
def runIn {α : Type} (c : Context) (s : Step α) : Except ExecutionError α :=
  match s.run c with
  | .ok a _ => .ok a
  | .error e _ => .error e

/-- An action for the rows behind those that are done, at most `n` of them. It ends early when the
rows have become fewer in the meantime. -/
def rowsAfter {α : Type} (action : Nat → Step α) (done : Array α) : Nat → Step (Array α)
  | 0 => pure done
  | n + 1 => do
    if done.size < (← get).size then
      let a ← action done.size
      rowsAfter action (done.push a) n
    else return done

/-- An action for every row. -/
def rows {α : Type} (action : Nat → Step α) : Step (Array α) := do
  rowsAfter action #[] (← get).size

/-- Starts anew. -/
def reset : Step Unit := set ({} : Context)

/-- Adds a view of a source. The first one fixes the count of rows, and all others must agree. -/
def addView (table : String) (v : View) : Step Unit := do
  let c ← get
  if (c.frame.view? table).isSome then throw (.duplicateAlias table)
  if !c.hasSource then
    set { c.replaceFrame (.ofSize v.size) with hasSource := true }
  else if v.size ≠ c.size then
    throw (.rowCountMismatch table c.size v.size)
  modify fun c =>
    let c := c.registerFields table v.fields
    { c with frame := c.frame.push table v }

/-- Makes the source a single row without fields, unless there is one. -/
def singleRow : Step Unit :=
  modify fun c => if c.hasSource then c else { c.replaceFrame (.ofSize 1) with hasSource := true }

end Step

end TableQuery
