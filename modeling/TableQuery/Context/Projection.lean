/-
The list of what a query selects.

Stars are written out first, then columns are named, windows computed, rows sorted and limited, and
at last every item is evaluated in every row. A query for distinct rows groups the rows selected by
all of their columns, and sorts and limits the groups.
-/
import TableQuery.Context.Filter
import TableQuery.Context.Window

namespace TableQuery

namespace Context

/-- The fields of a view, with its alias in front of those that other views declare too. -/
def viewColumns (c : Context) (table : String) (v : View) : List Expr :=
  v.fields.map fun name =>
    if c.direct.get? name = some table then .field name else .qualified table name

/-- The expressions that an item stands for. -/
def itemExprs (c : Context) : SelectItem → Except ExecutionError (List Expr)
  | .expr e => .ok [e]
  | .wildcard => .ok (c.frame.views.flatMap fun (table, v) => c.viewColumns table v)
  | .tableWildcard table =>
    match c.frame.view? table with
    | some v => .ok (c.viewColumns table v)
    | none => .error (.unknownTable table)

/-- An item to sort by, where a name that is no field stands for the expression with that alias. -/
def orderItem (c : Context) (exprs : List Expr) (item : OrderItem) : OrderItem :=
  match item.expr.body with
  | .field name =>
    if c.knows name then item
    else
      let aliased := exprs.findSome? fun e =>
        match e.body with
        | .aliased inner a => if a = name then some inner else none
        | _ => none
      match aliased with
      | some inner => .mk inner item.direction
      | none => item
  | _ => item

end Context

/-- The name that a column would have without its table. -/
def Expr.bareName (e : Expr) : String :=
  match e.body with
  | .qualified _ name => name
  | _ => e.label

/-- The name of a column: its label, or only the name of the field if no other column would have
that name. -/
def Expr.columnName (exprs : List Expr) (e : Expr) : String :=
  if (exprs.map Expr.bareName).count e.bareName = 1 then e.bareName else e.label

/-- The names of columns, which have to differ. -/
def columnNames (exprs : List Expr) : Except ExecutionError (List String) :=
  let names := exprs.map (Expr.columnName exprs)
  match duplicateLabel? [] names with
  | some name => .error (.duplicateColumn name)
  | none => .ok names

namespace Step

/-- Sorts the rows if there are items to sort by. -/
def arrange (engine : Engine) (exprs : List Expr) (order : List OrderItem) : Step Unit := do
  if !order.isEmpty then
    let c ← get
    discard (orderBy engine (order.map (c.orderItem exprs)))

/-- Evaluates expressions in every row. Without rows a row of Null stands in, which only an
aggregate turns into a row of the result. -/
def project (engine : Engine) (exprs : List Expr) (names : List String) : Step View := do
  let c ← get
  if c.size = 0 ∧ c.grouped ∧ c.emptyGroup.isNone then
    -- a condition on groups has left none of them
    reset
    return View.empty names
  if c.size = 0 then
    let frame := c.frame.nullRow.modifyRow 0 fun r => { r with group := c.emptyGroup }
    set { c.replaceFrame frame with sourceEmpty := true }
  let wanted := Expr.evaluators engine exprs
  let found ← rows fun i => do
    let values ← Evaluator.values engine wanted i false
    return Labelled.ofList (names.zip values)
  let c ← get
  reset
  return ⟨names, if c.sourceEmpty && !c.aggregated then #[] else found⟩

/-- What is selected, sorted and limited. -/
def selectAll (engine : Engine) (items : List SelectItem) (order : List OrderItem)
    (bounds : Option Limit) : Step View := do
  let c ← get
  let exprs ← lift ((items.mapM c.itemExprs).map List.flatten)
  let names ← lift (columnNames exprs)
  exprs.forM (computeWindow engine)
  arrange engine exprs order
  bounds.forM limit
  project engine exprs names

/-- The alias of selected rows while their duplicates are removed. -/
def distinctAlias : String := "distinct_result"

/-- The distinct rows of a view, sorted and limited. -/
def distinctRows (engine : Engine) (v : View) (order : List OrderItem) (bounds : Option Limit) :
    Except ExecutionError View :=
  let keys := v.fields.map Expr.field
  runIn {} do
    addView distinctAlias v
    discard (groupBy engine keys)
    selectAll engine (keys.map .expr) order bounds

/-- The result of a query, after which the context is as new. -/
def select (engine : Engine) (items : List SelectItem) (quantifier : Option Quantifier)
    (order : List OrderItem) (bounds : Option Limit) : Step View := do
  match quantifier with
  | none => selectAll engine items order bounds
  | some .distinct => lift (distinctRows engine (← selectAll engine items [] none) order bounds)
  | some .all => throw .allUnsupported

end Step

end TableQuery
