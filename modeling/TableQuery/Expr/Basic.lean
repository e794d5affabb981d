/-
Expressions of queries.

An expression is a tree of literals, fields, operators, predicates and calls; a window is a call
that is evaluated over a partition of the rows. Parentheses are kept, for they show in the label of
an expression, but they mean nothing: `Expr.body` is the expression inside them.
-/
import TableQuery.Operator.Binary
import TableQuery.Operator.Cast
import TableQuery.Operator.Unary
import TableQuery.Pattern.Basic

namespace TableQuery

/-- How a call or a query treats equal values. -/
inductive Quantifier where
  | distinct
  | all
  deriving Repr, DecidableEq

/-- The word for a quantifier. -/
def Quantifier.keyword : Quantifier → String
  | distinct => "distinct"
  | all => "all"

/-- The direction of sorting. -/
inductive Direction where
  | ascending
  | descending
  deriving Repr, DecidableEq

/-- The word for a direction. -/
def Direction.keyword : Direction → String
  | ascending => "asc"
  | descending => "desc"

/-- One end of the range of rows that a window covers for a row. -/
inductive Bound where
  | unboundedPreceding
  | preceding (n : Nat)
  | currentRow
  | following (n : Nat)
  | unboundedFollowing
  deriving Repr, DecidableEq

namespace Bound

/-- How a bound is written. -/
def display : Bound → String
  | unboundedPreceding => "unbounded preceding"
  | preceding n => s!"{n} preceding"
  | currentRow => "current row"
  | following n => s!"{n} following"
  | unboundedFollowing => "unbounded following"

/-- The greatest position, `2 ^ 63 - 1`. -/
def greatest : Nat := 0x7fffffffffffffff

/-- A count as a position, the greatest one if it is beyond. -/
def clamp (n : Nat) : Int := (min n greatest : Nat)

/-- The position that a bound designates for a row of a partition of the given size. It may lie
outside the partition, but never beyond the greatest position. -/
def position (bound : Bound) (row size : Nat) : Int :=
  match bound with
  | unboundedPreceding => 0
  | preceding n => clamp row - clamp n
  | currentRow => clamp row
  | following n => min (clamp row + clamp n) greatest
  | unboundedFollowing => clamp size - 1

end Bound

/-- The range of rows that a window covers for a row. -/
structure Extent where
  first : Bound
  last : Bound
  deriving Repr, DecidableEq

namespace Extent

/-- All rows of the partition. -/
def whole : Extent := ⟨.unboundedPreceding, .unboundedFollowing⟩

/-- The range is the whole partition for every row. -/
def isWhole (e : Extent) : Bool := e == whole

end Extent

mutual

/-- An expression. -/
inductive Expr where
  | literal (value : Value)
  /-- A field of whichever table provides it. -/
  | field (name : String)
  /-- A field of the table with the given alias. -/
  | qualified (table : String) (name : String)
  | binary (op : BinaryOperator) (left right : Expr)
  | unary (op : UnaryOperator) (operand : Expr)
  | isNull (operand : Expr) (negated : Bool)
  | isIn (operand : Expr) (items : List Expr) (negated : Bool)
  | isLike (kind : PatternKind) (operand pattern : Expr) (negated : Bool)
  | cast (operand : Expr) (target : CastType)
  /-- The first branch whose condition is true. -/
  | searchedCase (branches : Branches)
  /-- The first branch whose condition equals the base. -/
  | simpleCase (base : Expr) (branches : Branches)
  | call (name : String) (quantifier : Option Quantifier) (arguments : List Expr)
  /-- A call with a star for its arguments, which counts as the number one. -/
  | callStar (name : String)
  | index (base position : Expr)
  | aliased (inner : Expr) (name : String)
  | window (function : Expr) (partition : List Expr) (order : List OrderItem) (extent : Extent)
  | paren (inner : Expr)

/-- The branches of a case distinction, with what holds in no branch at their end. -/
inductive Branches where
  | finish
  | otherwise (result : Expr)
  | branch (condition result : Expr) (rest : Branches)

/-- An expression to sort by. -/
inductive OrderItem where
  | mk (expr : Expr) (direction : Direction)

end

instance : Inhabited Expr := ⟨.literal .null⟩

/-- The expression of an item to sort by. -/
def OrderItem.expr : OrderItem → Expr
  | mk e _ => e

/-- The direction of an item to sort by. -/
def OrderItem.direction : OrderItem → Direction
  | mk _ d => d

namespace Expr

/-- The expression inside all parentheses. -/
def body : Expr → Expr
  | paren e => e.body
  | e => e

/-- The number one, which stands for a row in calls with a star and is the key of the partition of
all rows. -/
def one : Expr := literal (Value.ofNat 1)

/-! ### Labels -/

/-- Texts between commas. -/
def commas : List String → String := String.intercalate ","

mutual

/-- How an expression is shown: the name of its column unless it has an alias, and the name under
which its value is remembered. -/
def label : Expr → String
  | literal v => v.label
  | field name => name
  | qualified table name => table ++ "." ++ name
  | binary op l r => l.label ++ " " ++ op.symbol ++ " " ++ r.label
  | unary op e => op.before ++ e.label
  | isNull e negated => e.label ++ (if negated then " is not null" else " is null")
  | isIn e items negated =>
    e.label ++ (if negated then " not in (" else " in (") ++ commas (labels items) ++ ")"
  | isLike kind e p negated =>
    e.label ++ (if negated then " not " else " ") ++ kind.keyword ++ " " ++ p.label
  | cast e target => "cast (" ++ e.label ++ " as " ++ target.name ++ ")"
  | searchedCase branches => "case " ++ branchesLabel branches
  | simpleCase base branches => "case " ++ base.label ++ " " ++ branchesLabel branches
  | call name none args => name ++ "(" ++ commas (labels args) ++ ")"
  | call name (some q) args => name ++ "(" ++ q.keyword ++ " " ++ commas (labels args) ++ ")"
  | callStar name => name ++ "(*)"
  | index base position => base.label ++ " [" ++ position.label ++ "]"
  | aliased _ name => name
  | window function partition order extent =>
    function.label ++ " over (partition by " ++ commas (labels partition) ++
      (match order with
      | [] => ""
      | _ :: _ => " order by " ++ commas (orderLabels order)) ++
      " rows between " ++ extent.first.display ++ " and " ++ extent.last.display ++ ")"
  | paren e => "(" ++ e.label ++ ")"

/-- The labels of several expressions. -/
def labels : List Expr → List String
  | [] => []
  | e :: es => e.label :: labels es

/-- The labels of items to sort by. -/
def orderLabels : List OrderItem → List String
  | [] => []
  | .mk e d :: items => (e.label ++ " " ++ d.keyword) :: orderLabels items

/-- How branches are shown. -/
def branchesLabel : Branches → String
  | .finish => "end"
  | .otherwise e => "else " ++ e.label ++ " end"
  | .branch c r rest => "when " ++ c.label ++ " then " ++ r.label ++ " " ++ branchesLabel rest

end

theorem labels_eq_map (es : List Expr) : labels es = es.map label := by
  induction es with
  | nil => simp [labels]
  | cons e es ih => simp [labels, ih]

/-! ### Parts of an expression -/

/-- The name, quantifier and arguments of a call. -/
structure CallParts where
  name : String
  quantifier : Option Quantifier
  arguments : List Expr

/-- The parts of a call, looking into parentheses. -/
def call? (e : Expr) : Option CallParts :=
  match e.body with
  | call name q args => some ⟨name, q, args⟩
  | callStar name => some ⟨name, none, [one]⟩
  | _ => none

/-- The parts of a window. -/
structure WindowParts where
  function : Expr
  partition : List Expr
  order : List OrderItem
  extent : Extent

/-- The window that an expression is, looking into parentheses and behind an alias, together with
the label under which its results are kept. -/
def window? : Expr → Option (WindowParts × String)
  | window f p o x => some (⟨f, p, o, x⟩, (window f p o x).label)
  | aliased e _ => e.window?
  | paren e => e.window?
  | _ => none

/-- The value of the expression in a row is remembered while the row is worked on. -/
def isRemembered (e : Expr) : Bool :=
  match e.body with
  | literal _ => false
  | field _ => false
  | qualified .. => false
  | aliased .. => false
  | _ => true

end Expr

/-! ### Parts of a query -/

/-- An item of the list of what is selected. -/
inductive SelectItem where
  /-- All columns of all tables. -/
  | wildcard
  /-- All columns of the table with the given alias. -/
  | tableWildcard (table : String)
  | expr (e : Expr)

/-- How many rows of a result are skipped and how many are kept. -/
structure Limit where
  offset : Nat
  count : Option Nat
  deriving Repr, DecidableEq

end TableQuery
