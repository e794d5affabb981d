/-
The values of cells and expressions: Null, booleans, numbers, texts and lists.

Null is the absent value; it has no kind and no truth. `equal` is the equality of queries, under
which Null equals nothing, `compare?` their order within one kind.
-/
import TableQuery.Number.Notation
import TableQuery.Number.Rounding
import TableQuery.Json.Quoted

namespace TableQuery

/-- The kinds of values that are present. -/
inductive Kind where
  | boolean
  | number
  | string
  | list
  deriving Repr, DecidableEq

/-- The word for a kind. -/
def Kind.name : Kind → String
  | .boolean => "boolean"
  | .number => "number"
  | .string => "string"
  | .list => "list"

/-- The place of a kind when values of different kinds are sorted. -/
def Kind.rank : Kind → Nat
  | .boolean => 1
  | .number => 2
  | .string => 3
  | .list => 4

/-- What a cell holds and an expression yields. -/
inductive Value where
  | null
  | boolean (b : Bool)
  | number (x : Float)
  | string (s : String)
  | list (items : List Value)
  deriving Inhabited

namespace Value

/-- The kind of a value; Null has none. -/
def kind? : Value → Option Kind
  | null => none
  | boolean _ => some .boolean
  | number _ => some .number
  | string _ => some .string
  | list _ => some .list

/-- The word for the kind of a value, `null` for Null. -/
def kindName (v : Value) : String :=
  match v.kind? with
  | some k => k.name
  | none => "null"

/-- The value is Null. -/
def isNull : Value → Bool
  | null => true
  | _ => false

/-- Whether a value counts as true; Null counts as neither. -/
def truth? : Value → Option Bool
  | null => none
  | boolean b => some b
  | number x => some (!Number.isZero x && !Number.isNotANumber x)
  | string s => some (s != "")
  | list _ => some true

/-- The number of a count. -/
def ofNat (n : Nat) : Value := number (Number.ofNat n)

/-! ### Equality and order of queries -/

mutual

/-- The equality of queries: values of one kind and the same content. Null equals nothing, not even
inside a list. -/
def equal : Value → Value → Bool
  | boolean a, boolean b => a == b
  | number x, number y => Number.equal x y
  | string s, string t => s == t
  | list xs, list ys => equalAll xs ys
  | _, _ => false

/-- Lists are equal when they have the same length and equal items. -/
def equalAll : List Value → List Value → Bool
  | [], [] => true
  | x :: xs, y :: ys => x.equal y && equalAll xs ys
  | _, _ => false

end

/-- The order of booleans, numbers and texts among their own kind. Nothing else is comparable, and
neither is a number with what is not a number. -/
def compare? : Value → Value → Option Ordering
  | boolean a, boolean b => some (compare a b)
  | number x, number y => Number.compare? x y
  | string s, string t => some (compare s t)
  | _, _ => none

end Value

end TableQuery
