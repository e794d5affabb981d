/-
Left joins.

Every row on the left is paired with the rows on the right for which the condition is true, or with
a row of Null when there is none. The condition is tried on candidates: when it equates a field of
each side, only pairs of equal keys are candidates, found by merging the sorted keys
(`mergeKeys`), and else all pairs are (`allPairs`).
-/
import TableQuery.Context.Evaluation
import TableQuery.Value.Order

namespace TableQuery

/-- A row on the left and the row on the right it is paired with, if any. -/
abbrev RowPair := Nat × Option Nat

/-- Every row on the left with every row on the right. -/
def allPairs (left right : Nat) : List RowPair :=
  (List.range left).flatMap fun i => (List.range right).map fun j => (i, some j)

/-- A key and the row it belongs to. -/
abbrev RowKey := Value × Nat

/-- Sorts keys; rows with equal keys keep their order. -/
def sortRowKeys (keys : List RowKey) : List RowKey :=
  keys.mergeSort fun a b => a.1.sortCompare b.1 != .gt

/-- The key of a row is the given one, as far as sorting can tell. -/
def RowKey.sortsAs (x : Value) (k : RowKey) : Bool := k.1.sortCompare x == .eq

/-- Pairs the rows with equal keys of two sorted lists. A row on the left without an equal key on
the right is paired with nothing; Null is equal to nothing. -/
def mergeKeys : List RowKey → List RowKey → List RowPair
  | [], _ => []
  | (_, i) :: left, [] => (i, none) :: mergeKeys left []
  | (x, i) :: left, (y, j) :: right =>
    if x.isNull && y.isNull then mergeKeys ((x, i) :: left) right
    else match x.sortCompare y with
      | .lt => (i, none) :: mergeKeys left ((y, j) :: right)
      | .gt => mergeKeys ((x, i) :: left) right
      | .eq =>
        let pairs := ((x, i) :: left.takeWhile (RowKey.sortsAs x)).flatMap fun l =>
          ((y, j) :: right.takeWhile (RowKey.sortsAs y)).map fun r => (l.2, some r.2)
        pairs ++ mergeKeys (left.dropWhile (RowKey.sortsAs x)) (right.dropWhile (RowKey.sortsAs y))
termination_by left right => left.length + right.length
decreasing_by
  all_goals try simp only [List.length_cons]
  all_goals try omega
  have h₁ := (List.dropWhile_suffix (l := left) (RowKey.sortsAs x)).length_le
  have h₂ := (List.dropWhile_suffix (l := right) (RowKey.sortsAs y)).length_le
  omega

/-- The candidates that hold, or a pair with nothing if none of them does. The candidates are those
of one row on the left. -/
def pairsOfRow (candidates : List (RowPair × Bool)) : List RowPair :=
  match (candidates.filter Prod.snd).map Prod.fst with
  | [] => (candidates.head?.map fun c => (c.1.1, none)).toList
  | held => held

/-- The pairs of a left join: for every row on the left the candidates that hold, or a pair with
nothing if it has candidates of which none holds. The candidates of a row stand together. -/
def outerPairs (candidates : List (RowPair × Bool)) : List RowPair :=
  (candidates.splitBy fun a b => a.1.1 == b.1.1).flatMap pairsOfRow

/-- The rows on the right in the order of pairs, a row of Null for nothing. -/
def View.paired (v : View) (pairs : List RowPair) : View :=
  ⟨v.fields, (pairs.map fun (_, j) => (j.bind fun j => v.rows[j]?).getD v.nullRow).toArray⟩

@[simp] theorem View.size_paired (v : View) (pairs : List RowPair) :
    (v.paired pairs).size = pairs.length := List.length_map _

/-- A field of the view with the given alias. -/
structure FieldOwner where
  table : String
  name : String

namespace Context

/-- The field that an expression is, if it belongs to one side. -/
def fieldOwner? (c : Context) (e : Expr) (table : String) (right : View) : Option FieldOwner :=
  match e.body with
  | .qualified owner name => some ⟨owner, name⟩
  | .field name =>
    match c.knows name, right.declares name with
    | true, true => none
    | false, true => some ⟨table, name⟩
    | true, false => (c.direct.get? name).map fun owner => ⟨owner, name⟩
    | false, false => none
  | _ => none

/-- The field is declared by a view on the left. -/
def isLeftField (c : Context) (aliases : List String) (o : FieldOwner) : Bool :=
  aliases.contains o.table && (c.frame.view? o.table).any (·.declares o.name)

/-- The expression on the left and the field on the right whose equality the condition is. -/
def equalityKeys? (c : Context) (on : Expr) (aliases : List String) (table : String)
    (right : View) : Option (Expr × String) :=
  match on.body with
  | .binary .eq l r =>
    match c.fieldOwner? l table right, c.fieldOwner? r table right with
    | some a, some b =>
      if a.table = b.table then none
      else if a.table = table && c.isLeftField aliases b then some (r, a.name)
      else if b.table = table && c.isLeftField aliases a then some (l, b.name)
      else none
    | _, _ => none
  | _ => none

end Context

namespace Step

/-- The pairs with equal keys. -/
def mergePairs (engine : Engine) (key : Expr) (right : View) (field : String) :
    Step (List RowPair) := do
  let wanted := key.evaluator engine
  let left ← (List.range (← get).size).mapM fun i => do
    return (← wanted.value engine i false, i)
  let right := (List.range right.size).map fun j => (right.value j field, j)
  return mergeKeys (sortRowKeys left) (sortRowKeys right)

/-- Tries the condition on pairs. The rows and what was remembered about them are as before
afterwards. -/
def tryPairs (engine : Engine) (candidates : List RowPair) (table : String) (right : View)
    (on : Expr) : Step (List RowPair) := do
  let saved ← get
  let frame := (saved.frame.take (candidates.map Prod.fst)).push table (right.paired candidates)
  set ((saved.registerFields table right.fields).replaceFrame frame)
  let condition := on.evaluator engine
  let tried ← candidates.zipIdx.mapM fun (p, k) => do
    if p.2.isSome then return (p, ← condition.holds engine k) else return (p, false)
  modify fun c => { c with frame := saved.frame, memo := saved.memo }
  return outerPairs tried

/-- Joins a view to the rows of views with the given aliases, and gives all aliases. -/
def leftJoin (engine : Engine) (aliases : List String) (table : String) (right : View) (on : Expr) :
    Step (List String) := do
  let c ← get
  if (c.frame.view? table).isSome then throw (.duplicateAlias table)
  let pairs ←
    if c.size = 0 ∨ right.size = 0 then pure ((List.range c.size).map fun i => (i, none))
    else
      let candidates ← match c.equalityKeys? on aliases table right with
        | some (key, field) => mergePairs engine key right field
        | none => pure (allPairs c.size right.size)
      tryPairs engine candidates table right on
  modify fun c =>
    let frame := (c.frame.take (pairs.map Prod.fst)).push table (right.paired pairs)
    { (c.registerFields table right.fields).replaceFrame frame with sawPlainColumn := false }
  return aliases ++ [table]

end Step

end TableQuery
