/-
Evaluation of expressions in a row.

Every expression has an evaluator, which is put together once for all rows. The values of literals,
of fields and of what has an alias are not remembered. A pattern that is written as a literal is
compiled beforehand, which makes no difference to any answer (`PatternCache.matches?_fst`).
-/
import TableQuery.Context.Evaluator

namespace TableQuery

namespace Expr

/-- The label under which values of the expression are remembered, if they are. -/
def rememberedLabel? (e : Expr) : Option String := if e.isRemembered then some e.label else none

/-- A cache for the patterns that an expression gives: it holds the one of a literal. -/
def patternCache (kind : PatternKind) (e : Expr) : PatternCache :=
  match e.body with
  | literal (.string s) => .holding kind s
  | _ => {}

mutual

/-- How an expression is evaluated. -/
def evaluator (engine : Engine) : Expr → Evaluator
  | literal v => ⟨none, fun _ _ => pure v⟩
  | field name => ⟨none, Step.readField name⟩
  | qualified table name => ⟨none, Step.readQualified table name⟩
  | binary op l r =>
    let left := evaluator engine l
    let right := evaluator engine r
    ⟨some (binary op l r).label, fun row inAggregate => do
      let x ← left.value engine row inAggregate
      let y ← right.value engine row inAggregate
      Step.lift ((op.apply x y).mapError .operation)⟩
  | unary op e =>
    let operand := evaluator engine e
    ⟨some (unary op e).label, fun row inAggregate => do
      let x ← operand.value engine row inAggregate
      Step.lift ((op.apply x).mapError .operation)⟩
  | isNull e negated =>
    let operand := evaluator engine e
    ⟨some (isNull e negated).label, fun row inAggregate => do
      let x ← operand.value engine row inAggregate
      return .boolean (x.isNull != negated)⟩
  | isIn e items negated =>
    let operand := evaluator engine e
    let found := evaluators engine items
    ⟨some (isIn e items negated).label, fun row inAggregate => do
      let x ← operand.value engine row inAggregate
      if x.isNull then return .null
      Evaluator.membership engine x negated row inAggregate found false⟩
  | isLike kind e p negated =>
    let operand := evaluator engine e
    let wanted := evaluator engine p
    let cache := p.patternCache kind
    ⟨some (isLike kind e p negated).label, fun row inAggregate => do
      let subject ← operand.value engine row inAggregate
      let pattern ← wanted.value engine row inAggregate
      match ← Step.lift ((cache.matches? kind subject pattern).1.mapError .operation) with
      | .boolean matched => return .boolean (matched != negated)
      | v => return v⟩
  | cast e target =>
    let operand := evaluator engine e
    ⟨some (cast e target).label, fun row inAggregate => do
      let x ← operand.value engine row inAggregate
      Step.lift ((target.apply x).mapError .operation)⟩
  | searchedCase branches =>
    let found := branchEvaluators engine branches
    ⟨some (searchedCase branches).label, found.value engine none⟩
  | simpleCase base branches =>
    let compared := evaluator engine base
    let found := branchEvaluators engine branches
    ⟨some (simpleCase base branches).label, fun row inAggregate => do
      let x ← compared.value engine row inAggregate
      found.value engine (some x) row inAggregate⟩
  | call name quantifier arguments =>
    let found := evaluators engine arguments
    ⟨some (call name quantifier arguments).label,
      Step.call engine name quantifier (Evaluator.values engine found)⟩
  | callStar name =>
    ⟨some (callStar name).label,
      Step.call engine name none fun _ _ => pure [Value.ofNat 1]⟩
  | index base position =>
    let items := evaluator engine base
    let place := evaluator engine position
    ⟨some (index base position).label, fun row inAggregate => do
      let x ← items.value engine row inAggregate
      let i ← place.value engine row inAggregate
      Step.lift ((Step.itemAt x i).mapError .operation)⟩
  | aliased e _ =>
    let inner := evaluator engine e
    ⟨none, inner.value engine⟩
  | window function partition order extent =>
    let label := (window function partition order extent).label
    ⟨some label, fun row _ => Step.readWindow label row⟩
  | paren e =>
    let inner := evaluator engine e
    ⟨(paren e).rememberedLabel?, inner.compute⟩

/-- How several expressions are evaluated. -/
def evaluators (engine : Engine) : List Expr → List Evaluator
  | [] => []
  | e :: es => evaluator engine e :: evaluators engine es

/-- How branches are evaluated. -/
def branchEvaluators (engine : Engine) : Branches → BranchEvaluators
  | .finish => ⟨[], none⟩
  | .otherwise e => ⟨[], some (evaluator engine e)⟩
  | .branch condition result rest =>
    let others := branchEvaluators engine rest
    ⟨(evaluator engine condition, evaluator engine result) :: others.branches, others.otherwise⟩

end

theorem evaluators_eq_map (engine : Engine) (es : List Expr) :
    evaluators engine es = es.map (evaluator engine) := by
  induction es with
  | nil => simp [evaluators]
  | cons e es ih => simp [evaluators, ih]

/-- An evaluator remembers values under the label of its expression. -/
theorem label?_evaluator (engine : Engine) (e : Expr) :
    (e.evaluator engine).label? = e.rememberedLabel? := by
  cases e <;> rw [evaluator] <;> rfl

end Expr

namespace Step

/-- The value of an expression in a row. The flag tells that it is an argument of an aggregate. -/
def evaluate (engine : Engine) (e : Expr) (row : Nat) (inAggregate : Bool) : Step Value :=
  (e.evaluator engine).value engine row inAggregate

/-- The values of several expressions in a row. -/
def evaluateAll (engine : Engine) (es : List Expr) (row : Nat) (inAggregate : Bool) :
    Step (List Value) :=
  Evaluator.values engine (Expr.evaluators engine es) row inAggregate

/-- The truth of an expression in a row. -/
def holds (engine : Engine) (e : Expr) (row : Nat) : Step Bool :=
  (e.evaluator engine).holds engine row

end Step

end TableQuery
