/-
The window functions `row_number` and `rank`, and the registry of all functions of the library.
-/
import TableQuery.Function.Aggregate
import TableQuery.Function.Scalar
import TableQuery.Value.Order

namespace TableQuery

namespace Function

/-- Refuses rows with arguments. -/
def refuseArguments (name : String) (p : SortedPartition) : Except FunctionError Unit :=
  if p.tuples.head?.any (!·.isEmpty) then .error (.argumentsUnwanted name) else .ok ()

/-- The numbers of the rows from one. -/
def rowNumber (p : SortedPartition) : Except FunctionError (List Value) := do
  refuseArguments "row_number" p
  return (List.range p.tuples.length).map fun i => Value.ofNat (i + 1)

/-- Keys sort alike. -/
def tied (a b : List Value) : Bool := (a.zip b).all fun (x, y) => x.sortCompare y == .eq

/-- The ranks of keys from position `position` on, where the key before them has rank `current`. -/
def ranksFrom (position current : Nat) (previous : List Value) : List (List Value) → List Nat
  | [] => []
  | key :: rest =>
    let r := if tied previous key then current else position
    r :: ranksFrom (position + 1) r key rest

/-- The ranks of sorted keys from one: equal keys share a rank, and the next one counts them all. -/
def ranks : List (List Value) → List Nat
  | [] => []
  | key :: rest => 1 :: ranksFrom 2 1 key rest

/-- The ranks of the rows. -/
def rank (p : SortedPartition) : Except FunctionError (List Value) := do
  refuseArguments "rank" p
  if p.order.isEmpty then .error (.orderMissing "rank")
  return (ranks p.keys).map Value.ofNat

end Function

/-- The functions of the library. -/
def Registry.builtin : Registry :=
  [("round", .scalar Function.round), ("concat", .scalar Function.concat),
    ("split", .scalar Function.split), ("count", .aggregate Function.count),
    ("sum", .aggregate Function.sum), ("avg", .aggregate Function.avg),
    ("max", .aggregate Function.max), ("min", .aggregate Function.min),
    ("row_number", .window Function.rowNumber), ("rank", .window Function.rank)].foldl
    (fun r (name, f) => r.register name f) {}

end TableQuery
