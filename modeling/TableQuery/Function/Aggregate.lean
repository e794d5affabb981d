/-
The aggregate functions `count`, `sum`, `avg`, `max` and `min`.

All of them look at the first argument of every row and leave out Null, and `distinct` makes them
count equal values once. Over an empty group `count` is zero and the others are Null.
-/
import TableQuery.Function.Basic

namespace TableQuery.Function

/-- Adds a value unless an equal one is there. -/
def addDistinct (values : List Value) (v : Value) : List Value :=
  if values.any (·.equal v) then values else values ++ [v]

/-- The first arguments of all rows that are not Null. -/
def firstColumn (tuples : Tuples) : List Value :=
  (tuples.filterMap List.head?).filter fun v => !v.isNull

/-- The values that an aggregate looks at. -/
def column (name : String) (tuples : Tuples) (quantifier : Option Quantifier) :
    Except FunctionError (List Value) :=
  if tuples.head?.any List.isEmpty then .error (.argumentMissing name)
  else match quantifier with
    | none => .ok (firstColumn tuples)
    | some .distinct => .ok ((firstColumn tuples).foldl addDistinct [])
    | some .all => .error (.allUnsupported name)

/-- The numbers that values are. -/
def numbers (name : String) : List Value → Except FunctionError (List Float)
  | [] => .ok []
  | .number x :: rest => (numbers name rest).map (x :: ·)
  | v :: _ => .error (.numbersExpected name v.kindName)

/-- The sum of numbers from left to right; there is none without numbers. -/
def total? : List Float → Option Float
  | [] => none
  | x :: xs => some (xs.foldl (· + ·) x)

/-- How many values there are. -/
def count (tuples : Tuples) (empty : Bool) (quantifier : Option Quantifier) :
    Except FunctionError Value :=
  if empty then .ok (Value.ofNat 0)
  else (column "count" tuples quantifier).map fun values => Value.ofNat values.length

/-- The sum of the values. -/
def sum (tuples : Tuples) (empty : Bool) (quantifier : Option Quantifier) :
    Except FunctionError Value := do
  if empty then return .null
  match total? (← numbers "sum" (← column "sum" tuples quantifier)) with
  | some x => return .number x
  | none => return .null

/-- The sum of the values divided by their count. -/
def avg (tuples : Tuples) (empty : Bool) (quantifier : Option Quantifier) :
    Except FunctionError Value := do
  if empty then return .null
  let xs ← numbers "avg" (← column "avg" tuples quantifier)
  match total? xs with
  | some x => return .number (x / Number.ofNat xs.length)
  | none => return .null

/-- The better of two values: the new one only if it compares as wanted with the current one. Values
of different kinds do not compare. -/
def better (name : String) (wanted : Ordering) (current new : Value) : Except FunctionError Value :=
  match new.compare? current with
  | some o => .ok (if o = wanted then new else current)
  | none =>
    if new.kind? = current.kind? then .ok current
    else .error (.incomparable name new.kindName current.kindName)

/-- The value that compares as wanted with all others, the first of several. -/
def extreme (name : String) (wanted : Ordering) (tuples : Tuples) (empty : Bool)
    (quantifier : Option Quantifier) : Except FunctionError Value := do
  if empty then return .null
  match ← column name tuples quantifier with
  | [] => return .null
  | v :: rest => rest.foldlM (better name wanted) v

/-- The greatest value. -/
def max : Tuples → Bool → Option Quantifier → Except FunctionError Value := extreme "max" .gt

/-- The least value. -/
def min : Tuples → Bool → Option Quantifier → Except FunctionError Value := extreme "min" .lt

end TableQuery.Function
