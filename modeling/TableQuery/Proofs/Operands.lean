/-
The operands of an expression, and induction on them.
-/
import TableQuery.Expr.Basic

namespace TableQuery

mutual

/-- The expressions whose values the value of an expression is computed from. A window has none, for
its results are there already. -/
def Expr.operands : Expr → List Expr
  | .literal _ => []
  | .field _ => []
  | .qualified _ _ => []
  | .binary _ l r => [l, r]
  | .unary _ e => [e]
  | .isNull e _ => [e]
  | .isIn e items _ => e :: items
  | .isLike _ e p _ => [e, p]
  | .cast e _ => [e]
  | .searchedCase branches => branches.operands
  | .simpleCase base branches => base :: branches.operands
  | .call _ _ arguments => arguments
  | .callStar _ => []
  | .index base position => [base, position]
  | .aliased e _ => [e]
  | .window .. => []
  | .paren e => [e]

/-- The conditions and results of branches. -/
def Branches.operands : Branches → List Expr
  | .finish => []
  | .otherwise e => [e]
  | .branch c r rest => c :: r :: rest.operands

end

theorem Branches.sizeOf_lt_of_mem_operands {p : Expr} : ∀ (branches : Branches),
    p ∈ branches.operands → sizeOf p < sizeOf branches
  | .finish, h => by simp [operands] at h
  | .otherwise e, h => by
    obtain rfl : p = e := by simpa [operands] using h
    simp
  | .branch c r rest, h => by
    have hrest : p ∈ rest.operands → sizeOf p < sizeOf rest := sizeOf_lt_of_mem_operands rest
    rw [operands, List.mem_cons, List.mem_cons] at h
    obtain rfl | rfl | h := h
    · simp; omega
    · simp; omega
    · have := hrest h
      simp; omega

theorem Expr.sizeOf_lt_of_mem_operands {e p : Expr} (h : p ∈ e.operands) :
    sizeOf p < sizeOf e := by
  cases e with
  | literal | field | qualified | callStar | window => simp [operands] at h
  | unary | isNull | cast | aliased | paren =>
    rw [operands, List.mem_singleton] at h
    subst h
    simp <;> omega
  | binary | isLike | index =>
    simp only [operands, List.mem_cons, List.not_mem_nil, or_false] at h
    obtain rfl | rfl := h <;> simp <;> omega
  | isIn e items negated =>
    rw [operands, List.mem_cons] at h
    obtain rfl | h := h
    · simp; omega
    · have := List.sizeOf_lt_of_mem h
      simp; omega
  | searchedCase branches =>
    have := branches.sizeOf_lt_of_mem_operands h
    simp; omega
  | simpleCase base branches =>
    rw [operands, List.mem_cons] at h
    obtain rfl | h := h
    · simp; omega
    · have := branches.sizeOf_lt_of_mem_operands h
      simp; omega
  | call name q arguments =>
    have : sizeOf p < sizeOf arguments := List.sizeOf_lt_of_mem h
    simp; omega

/-- What holds of an expression as soon as it holds of all its operands holds of every expression. -/
theorem Expr.operands_induction {motive : Expr → Prop}
    (step : ∀ e, (∀ p ∈ e.operands, motive p) → motive e) (e : Expr) : motive e :=
  step e fun p _ => operands_induction step p
termination_by sizeOf e
decreasing_by exact Expr.sizeOf_lt_of_mem_operands ‹_›

end TableQuery
