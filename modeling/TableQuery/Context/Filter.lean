/-
Keeping some of the rows: those for which a condition is true, or those in a range.
-/
import TableQuery.Context.Evaluation

namespace TableQuery

/-- The places in an array of truths that are true. -/
def truePlaces (truths : Array Bool) : List Nat :=
  (truths.toList.zipIdx.filter Prod.fst).map Prod.snd

/-- The places of the rows that a limit keeps of `n` rows. -/
def Limit.places (l : Limit) (n : Nat) : List Nat :=
  let first := min l.offset n
  let last := match l.count with
    | some count => min (first + count) n
    | none => n
  (List.range last).drop first

namespace Step

/-- Keeps the rows for which a condition is true; what was remembered about them is forgotten. -/
def filter (engine : Engine) (condition : Expr) : Step Unit := do
  let wanted := condition.evaluator engine
  let truths ← rows fun i => wanted.holds engine i
  modify fun c =>
    { c.replaceFrame (c.frame.take (truePlaces truths)) with sawPlainColumn := false }

/-- Keeps the rows in a range. -/
def limit (l : Limit) : Step Unit := modify fun c => c.reorder (l.places c.size)

end Step

end TableQuery
