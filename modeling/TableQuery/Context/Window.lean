/-
Windows: calls that are evaluated over partitions of the rows.

The rows of a partition are sorted in a context of their own, and every result goes back to the row
that it belongs to, so that the rows themselves do not move. An aggregate function looks at a range
of rows around each row, a window function at the whole sorted partition.
-/
import TableQuery.Context.Grouping
import TableQuery.Context.Sorting

namespace TableQuery

/-- The positions of the rows that a range covers, for one row of a partition. -/
def Extent.rows (e : Extent) (position size : Nat) : Except ExecutionError (List Nat) :=
  let first := max (e.first.position position size) 0
  let last := min (e.last.position position size) (size - 1) + 1
  if last < first then .error (.invalidExtent first last)
  else .ok ((List.range last.toNat).drop first.toNat)

namespace Step

/-- The values of an aggregate function for the rows of a partition of the given size, which is the
frame of the context. -/
def aggregateWindow (engine : Engine) (name : String)
    (f : Tuples → Bool → Option Quantifier → Except FunctionError Value) (p : Expr.CallParts)
    (extent : Extent) (size : Nat) : Step (List Value) := do
  let c ← get
  let arguments := Expr.evaluators engine p.arguments
  let valueOver := aggregateOver name f (fun i => Evaluator.values engine arguments i true)
    p.quantifier
  if extent.isWhole then
    return List.replicate size (← lift (valueOver c.frame))
  else
    lift ((List.range size).mapM fun i => do valueOver (c.frame.take (← extent.rows i size)))

/-- The values of a window function for the rows of a sorted partition of the given size. -/
def functionWindow (engine : Engine) (name : String)
    (f : SortedPartition → Except FunctionError (List Value)) (p : Expr.CallParts)
    (order : List OrderItem) (keys : List (List Value)) (size : Nat) : Step (List Value) := do
  let arguments := Expr.evaluators engine p.arguments
  let tuples ← (List.range size).mapM fun i => Evaluator.values engine arguments i false
  let values ← lift ((f ⟨tuples, order, keys⟩).mapError (.function name))
  if values.length = size then return values
  else throw (.function name (.resultCount values.length size))

/-- The values of a function for the rows of the frame of the context, each with the place where its
row stood before sorting. -/
def partitionResults (engine : Engine) (sort : Step SortOutcome) (f : Function)
    (p : Expr.CallParts) (w : Expr.WindowParts) : Step (List (Nat × Value)) := do
  let size := (← get).size
  let sorted ← if w.order.isEmpty then pure ⟨List.range size, List.replicate size []⟩ else sort
  let values ← match f with
    | .aggregate f => aggregateWindow engine p.name f p w.extent size
    | .window f => functionWindow engine p.name f p w.order sorted.keys size
    | .scalar _ => pure []
  return sorted.permutation.zip values

/-- Puts results under a label, each into the row that it belongs to. -/
def putResults (label : String) (g : Group) (results : List (Nat × Value)) : Step Unit :=
  modify fun c => { c with
    frame := results.foldl (fun frame (place, v) =>
      match g.members[place]? with
      | some i => frame.modifyRow i fun r => { r with windows := r.windows.put label v }
      | none => frame) c.frame }

/-- The call of a window and its function. Scalar functions have no windows, and window functions no
quantifiers. -/
def windowFunction (engine : Engine) (w : Expr.WindowParts) :
    Except ExecutionError (Expr.CallParts × Function) :=
  match w.function.call? with
  | none => .error (.notWindowFunction w.function.label)
  | some p =>
    if p.quantifier = some .all then .error .allUnsupported
    else match engine.functions.find? p.name with
    | none => .error (.unknownFunction p.name)
    | some (.scalar _) => .error (.notWindowFunction p.name)
    | some (.aggregate f) => .ok (p, .aggregate f)
    | some (.window f) =>
      match p.quantifier with
      | some q => .error (.unsupportedModifier p.name q)
      | none => .ok (p, .window f)

/-- Computes a window for every row, unless its results are there already. The partitions are sorted
by the given step. -/
def windowResults (engine : Engine) (sort : Step SortOutcome) (w : Expr.WindowParts)
    (label : String) : Step Unit := do
  match (← get).frame.rows[0]? with
  | none => return
  | some row =>
    if row.windows.has label then return
    let (p, f) ← lift (windowFunction engine w)
    let groups ← partitionBy engine w.partition
    groups.forM fun g => do
      let results ← lift (runIn (.ofFrame g.frame) (partitionResults engine sort f p w))
      putResults label g results

mutual

/-- Computes the window that an expression is, if it is one. -/
def computeWindow (engine : Engine) : Expr → Step Unit
  | .window f p o x =>
    windowResults engine (do computeOrderWindows engine o; sortRows engine o) ⟨f, p, o, x⟩
      (Expr.window f p o x).label
  | .aliased e _ => computeWindow engine e
  | .paren e => computeWindow engine e
  | _ => pure ()

/-- Computes the windows among items to sort by. -/
def computeOrderWindows (engine : Engine) : List OrderItem → Step Unit
  | [] => pure ()
  | .mk e _ :: items => do
    computeWindow engine e
    computeOrderWindows engine items

end

/-- Sorts the rows. -/
def orderBy (engine : Engine) (items : List OrderItem) : Step SortOutcome := do
  computeOrderWindows engine items
  sortRows engine items

end Step

end TableQuery
