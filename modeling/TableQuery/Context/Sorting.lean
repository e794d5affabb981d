/-
Sorting of rows.

Rows are compared by the values of the items from the first on, in the total order of values or its
reverse. Sorting is stable: rows with equal keys keep their order.
-/
import TableQuery.Context.Evaluation
import TableQuery.Value.Order

namespace TableQuery

/-- The order of two keys in the given directions. -/
def compareKeys : List Direction → List Value → List Value → Ordering
  | .ascending :: ds, x :: xs, y :: ys => (x.sortCompare y).then (compareKeys ds xs ys)
  | .descending :: ds, x :: xs, y :: ys => (y.sortCompare x).then (compareKeys ds xs ys)
  | _, _, _ => .eq

/-- Keys in sorted order, each with the place where it stood. -/
def sortKeys (directions : List Direction) (keys : List (List Value)) : List (List Value × Nat) :=
  keys.zipIdx.mergeSort fun a b => compareKeys directions a.1 b.1 != .gt

/-- What sorting has done: for every row the place where it stood, and its key. -/
structure SortOutcome where
  permutation : List Nat
  keys : List (List Value)

namespace Step

/-- Sorts the rows by items whose windows have been computed. An aggregate among them may leave
fewer rows than there were. -/
def sortRows (engine : Engine) (items : List OrderItem) : Step SortOutcome := do
  let wanted := Expr.evaluators engine (items.map OrderItem.expr)
  let keys ← rows fun i => Evaluator.values engine wanted i false
  let sorted := sortKeys (items.map OrderItem.direction) (keys.toList.take (← get).size)
  let permutation := sorted.map Prod.snd
  modify fun c => { c.reorder permutation with sawPlainColumn := false }
  return ⟨permutation, sorted.map Prod.fst⟩

end Step

end TableQuery
