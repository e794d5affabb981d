/-
Grouping of rows by the values of expressions.

Rows with the same key fall into one group, and groups come in the order of their first rows. A
group either takes the place of its rows (`Step.groupBy`), which leaves only the fields among its
keys, or is noted as the partition of each of them (`Step.partitionBy`).
-/
import TableQuery.Context.Evaluation
import TableQuery.Value.Order

namespace TableQuery

/-- The rows with one key, by their places in order. -/
structure Bucket where
  key : List Value
  members : Array Nat

namespace Bucket

/-- Puts a row into the bucket with its key, or into a new one behind the others. -/
def add (key : List Value) (row : Nat) : List Bucket → List Bucket
  | [] => [⟨key, #[row]⟩]
  | b :: rest =>
    if Value.sameKeys b.key key then { b with members := b.members.push row } :: rest
    else b :: add key row rest

/-- The buckets of rows with the given keys. -/
def ofKeys (keys : List (List Value)) : List Bucket :=
  keys.zipIdx.foldl (fun buckets (key, row) => add key row buckets) []

end Bucket

/-- The places of the rows of a group, and the rows themselves. -/
structure Group where
  members : Array Nat
  frame : Frame

/-- What becomes of a key of groups: it is a field of a view, or else it is kept under its label. -/
inductive KeyColumn where
  | field (table name : String)
  | label (label : String)
  deriving DecidableEq

/-- The first of the labels that occurs among those before it. -/
def duplicateLabel? (seen : List String) : List String → Option String
  | [] => none
  | l :: rest => if seen.contains l then some l else duplicateLabel? (l :: seen) rest

namespace Context

/-- What becomes of the values of an expression when rows are grouped by it. -/
def keyColumn (c : Context) (e : Expr) : Except ExecutionError KeyColumn :=
  match e.body with
  | .field name => (c.resolve name).map fun table => .field table name
  | .qualified table name => .ok (.field table name)
  | _ => .ok (.label e.label)

/-- The fields of a view that are keys, each once, with the position of the key. -/
def keyFields (table : String) (columns : List KeyColumn) : List (String × Nat) :=
  columns.zipIdx.foldl (fun fields (column, i) =>
    match column with
    | .field owner name =>
      if owner = table ∧ (fields.lookup name).isNone then fields ++ [(name, i)] else fields
    | .label _ => fields) []

/-- The view that is left of the view with the given alias. -/
def keyView (table : String) (columns : List KeyColumn) (buckets : List Bucket) : View :=
  let fields := keyFields table columns
  ⟨fields.map Prod.fst, (buckets.map fun b =>
    .ofList (fields.map fun (name, i) => (name, (b.key[i]?).getD .null))).toArray⟩

/-- The values of the keys that are no fields, under their labels. -/
def labelledKeys (columns : List KeyColumn) (key : List Value) : Labelled Value :=
  .ofList ((columns.zip key).filterMap fun (column, v) =>
    match column with
    | .label l => some (l, v)
    | .field .. => none)

/-- Puts a row for each bucket in place of its rows. -/
def collapseTo (c : Context) (columns : List KeyColumn) (buckets : List Bucket)
    (groups : List Group) : Context :=
  let frame : Frame := {
    views := c.frame.views.map fun (table, _) => (table, keyView table columns buckets)
    rows := ((buckets.zip groups).map fun (b, g) =>
      { group := some g.frame, keys := labelledKeys columns b.key }).toArray }
  let c := { c with emptyGroup := if buckets.isEmpty then some c.frame.empty else c.emptyGroup }
  { c.replaceFrame frame with grouped := true }.rebuildFields

end Context

namespace Step

/-- The buckets of the rows by the values of expressions with distinct labels. -/
def buckets (engine : Engine) (keys : List Expr) : Step (List Bucket) := do
  match duplicateLabel? [] (keys.map Expr.label) with
  | some l => throw (.duplicateGroupKey l)
  | none =>
    let wanted := Expr.evaluators engine keys
    return Bucket.ofKeys (← rows fun i => Evaluator.values engine wanted i false).toList

/-- The groups that buckets stand for. -/
def groupsOf (buckets : List Bucket) : Step (List Group) := do
  let c ← get
  return buckets.map fun b => ⟨b.members, c.frame.take b.members.toList⟩

/-- Puts one row for each group in place of its rows. -/
def groupBy (engine : Engine) (keys : List Expr) : Step (List Group) := do
  let buckets ← buckets engine keys
  let groups ← groupsOf buckets
  let c ← get
  let columns ← lift (keys.mapM c.keyColumn)
  set { c.collapseTo columns buckets groups with sawPlainColumn := false }
  return groups

/-- Notes for every row the group that it belongs to as its partition. -/
def partitionBy (engine : Engine) (keys : List Expr) : Step (List Group) := do
  let groups ← groupsOf (← buckets engine keys)
  modify fun c =>
    let frame := groups.foldl (fun f g =>
      g.members.foldl (fun f i => f.modifyRow i fun r => { r with partition := some g.frame }) f)
      c.frame
    { c with frame := frame, sawPlainColumn := false }
  return groups

end Step

end TableQuery
