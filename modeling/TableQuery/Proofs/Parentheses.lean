/-
Where parentheses stand.

`Expr.Supported` are the expressions that queries can write, and `Expr.Readable` those of them whose
operands all stand on the level of their place or a tighter one. Parentheses make every expression
readable, and change nothing else:

* `Expr.readable_grouped`, `Statement.of_grouped` — a grouped tree is readable;
* `Statement.bare_grouped` — it is the same tree without its parentheses.
-/
import TableQuery.Proofs.Writing

namespace TableQuery

/-! ### What queries can write -/

/-- There is a first branch. -/
def Branches.hasBranch : Branches → Bool
  | .branch .. => true
  | _ => false

/-- Queries can write the expression, as far as its outermost part is concerned. Windows and aliases
stand at some places alone. -/
def Expr.isSupported : Expr → Bool
  | .literal (.number x) => Number.exponentBits x != 2047 && !Number.isNegative x
  | .literal (.list _) => false
  | .searchedCase branches => branches.hasBranch
  | .simpleCase _ branches => branches.hasBranch
  | .aliased .. => false
  | .window .. => false
  | _ => true

/-- Queries can write the expression. -/
inductive Expr.Supported : Expr → Prop
  | intro {e : Expr} (node : e.isSupported = true) (operands : ∀ p ∈ e.slots, Supported p.2) :
      Supported e

/-- Queries can write the expression as it is, for no operand is looser than its place. -/
inductive Expr.Readable : Expr → Prop
  | intro {e : Expr} (node : e.isSupported = true) (fits : ∀ p ∈ e.slots, p.2.level.rank ≤ p.1.rank)
      (operands : ∀ p ∈ e.slots, Readable p.2) : Readable e

namespace Expr.Readable

variable {e o : Expr} {level : Level}

theorem isSupported : e.Readable → e.isSupported = true
  | .intro node _ _ => node

theorem fits : e.Readable → (level, o) ∈ e.slots → o.level.rank ≤ level.rank
  | .intro _ fits _, ho => fits _ ho

theorem operand : e.Readable → (level, o) ∈ e.slots → o.Readable
  | .intro _ _ operands, ho => operands _ ho

end Expr.Readable

/-- The count has a token. -/
def Countable (n : Nat) : Prop := n < UInt64.size

/-- The counts in one end of the range of a window have tokens. -/
def Bound.Supported : Bound → Prop
  | preceding n => Countable n
  | following n => Countable n
  | _ => True

/-- There is a count of rows to keep, and the counts have tokens. -/
def Limit.Supported (l : Limit) : Prop := Countable l.offset ∧ ∃ n, l.count = some n ∧ Countable n

/-- A call over a window may stand for an expression of a kind. -/
inductive Expr.Windowed (P : Expr → Prop) : Expr → Prop
  | plain {e : Expr} (h : P e) : Windowed P e
  | window {function : Expr} {partition : List Expr} {order : List OrderItem} {extent : Extent}
      (call : function.call?.isSome = true) (function_of : P function) (nonempty : partition ≠ [])
      (partition_of : ∀ e ∈ partition, P e) (order_of : ∀ i ∈ order, Windowed P i.expr)
      (first : extent.first.Supported) (last : extent.last.Supported) :
      Windowed P (.window function partition order extent)

/-- The expression of an item of what is selected is of a kind, or a call over a window; it may have
an alias. -/
inductive SelectItem.Of (P : Expr → Prop) : SelectItem → Prop
  | wildcard : Of P .wildcard
  | tableWildcard (table : String) : Of P (.tableWildcard table)
  | expr {e : Expr} (h : e.Windowed P) : Of P (.expr e)
  | aliased {e : Expr} (name : String) (h : e.Windowed P) : Of P (.expr (.aliased e name))

/-- All expressions of the clauses are of a kind. -/
structure Clauses.Of (P : Expr → Prop) (c : Clauses) : Prop where
  nonempty : c.items ≠ []
  items : ∀ i ∈ c.items, i.Of P
  condition : ∀ e ∈ c.condition, P e
  groupBy : ∀ e ∈ c.groupBy, P e
  having : ∀ e ∈ c.having, P e
  orderBy : ∀ i ∈ c.orderBy, i.expr.Windowed P
  limit : ∀ l ∈ c.limit, l.Supported

mutual

/-- All expressions of the query are of a kind. -/
def Statement.Of (P : Expr → Prop) : Statement → Prop
  | .select source clauses => source.Of P ∧ clauses.Of P

/-- All expressions of the source are of a kind, and joins have something to their left. -/
def Source.Of (P : Expr → Prop) : Source → Prop
  | .nothing => True
  | .factor f => f.Of P
  | .leftJoin left right on => left ≠ .nothing ∧ left.Of P ∧ right.Of P ∧ P on

/-- All expressions of the factor are of a kind. -/
def Factor.Of (P : Expr → Prop) : Factor → Prop
  | .table .. => True
  | .derived query _ => query.Of P

end

/-- Queries can write the statement. -/
def Statement.Supported (s : Statement) : Prop := s.Of Expr.Supported

/-! ### Regrouping -/

section

variable {enclose : Level → Expr → Expr}

theorem Expr.regroupedList_eq_map (es : List Expr) :
    regroupedList enclose es = es.map fun e => enclose .disjunction (e.regrouped enclose) := by
  induction es with
  | nil => rw [regroupedList, List.map_nil]
  | cons e es ih => rw [regroupedList, List.map_cons, ih]

theorem OrderItem.regroupedList_eq_map (items : List OrderItem) :
    regroupedList enclose items =
      items.map fun i => .mk (i.expr.regrouped enclose) i.direction := by
  induction items with
  | nil => rw [regroupedList, List.map_nil]
  | cons i items ih =>
    cases i
    rw [regroupedList, List.map_cons, ih]
    rfl

theorem Branches.operands_regrouped : ∀ branches : Branches,
    (branches.regrouped enclose).operands =
      branches.operands.map fun e => enclose .disjunction (e.regrouped enclose)
  | .finish => by simp [regrouped, operands]
  | .otherwise e => by simp [regrouped, operands]
  | .branch c r rest => by simp [regrouped, operands, operands_regrouped rest]

theorem Branches.hasBranch_regrouped (branches : Branches) :
    (branches.regrouped enclose).hasBranch = branches.hasBranch := by
  cases branches <;> rw [regrouped] <;> rfl

namespace Expr

theorem isSupported_regrouped {e : Expr} (h : ∀ inner, e ≠ paren inner) :
    (e.regrouped enclose).isSupported = e.isSupported := by
  cases e with
  | paren inner => exact absurd rfl (h inner)
  | searchedCase branches => rw [regrouped]; exact branches.hasBranch_regrouped
  | simpleCase base branches => rw [regrouped]; exact branches.hasBranch_regrouped
  | _ => rw [regrouped]; try rfl

/-- Regrouping goes on in the operands. -/
theorem slots_regrouped {e : Expr} (h : ∀ inner, e ≠ paren inner) :
    (e.regrouped enclose).slots =
      e.slots.map fun p => (p.1, enclose p.1 (p.2.regrouped enclose)) := by
  cases e with
  | paren inner => exact absurd rfl (h inner)
  | _ =>
    simp only [regrouped, slots, regroupedList_eq_map, Branches.operands_regrouped, List.map_map,
      List.map_cons, List.map_nil, Function.comp_def]

theorem isSome_call?_regrouped (e : Expr) :
    (e.regrouped enclose).call?.isSome = e.call?.isSome := by
  fun_induction body e with
  | case1 e ih => rw [regrouped, ih]; rfl
  | case2 e h =>
    cases e with
    | paren inner => exact absurd rfl (h inner)
    | _ => rw [regrouped]; try rfl

end Expr

/-! ### Dropping parentheses -/

/-- What encloses operands is made of parentheses alone. -/
def Level.Encloses (enclose : Level → Expr → Expr) : Prop :=
  ∀ level e, (enclose level e).regrouped Expr.unenclosed = e.regrouped Expr.unenclosed

namespace Expr

mutual

theorem unenclosed_regrouped (h : Level.Encloses enclose) : ∀ e : Expr,
    (e.regrouped enclose).regrouped unenclosed = e.regrouped unenclosed
  | literal _ | field _ | qualified .. | callStar _ => by simp only [regrouped]
  | binary _ l r | index l r | isLike _ l r _ => by
    simp only [regrouped, h _ _, unenclosed_regrouped h l, unenclosed_regrouped h r]
  | unary _ e | isNull e _ | cast e _ | aliased e _ | paren e => by
    simp only [regrouped, h _ _, unenclosed_regrouped h e]
  | isIn e items _ => by
    simp only [regrouped, h _ _, unenclosed_regrouped h e, unenclosed_regroupedList h items]
  | searchedCase branches => by simp only [regrouped, unenclosed_branches h branches]
  | simpleCase base branches => by
    simp only [regrouped, h _ _, unenclosed_regrouped h base, unenclosed_branches h branches]
  | call _ _ arguments => by simp only [regrouped, unenclosed_regroupedList h arguments]
  | window function partition order _ => by
    simp only [regrouped, unenclosed_regrouped h function, unenclosed_regroupedList h partition,
      unenclosed_orderItems h order]

theorem unenclosed_regroupedList (h : Level.Encloses enclose) : ∀ es : List Expr,
    regroupedList unenclosed (regroupedList enclose es) = regroupedList unenclosed es
  | [] => by simp only [regroupedList]
  | e :: es => by
    simp only [regroupedList, h _ _, unenclosed_regrouped h e, unenclosed_regroupedList h es]

theorem unenclosed_branches (h : Level.Encloses enclose) : ∀ branches : Branches,
    (branches.regrouped enclose).regrouped unenclosed = branches.regrouped unenclosed
  | .finish => by simp only [Branches.regrouped]
  | .otherwise e => by simp only [Branches.regrouped, h _ _, unenclosed_regrouped h e]
  | .branch c r rest => by
    simp only [Branches.regrouped, h _ _, unenclosed_regrouped h c, unenclosed_regrouped h r,
      unenclosed_branches h rest]

theorem unenclosed_orderItems (h : Level.Encloses enclose) : ∀ items : List OrderItem,
    OrderItem.regroupedList unenclosed (OrderItem.regroupedList enclose items) =
      OrderItem.regroupedList unenclosed items
  | [] => by simp only [OrderItem.regroupedList]
  | .mk e _ :: items => by
    simp only [OrderItem.regroupedList, unenclosed_regrouped h e, unenclosed_orderItems h items]

end

end Expr

theorem SelectItem.unenclosed_regrouped (h : Level.Encloses enclose) (i : SelectItem) :
    (i.regrouped enclose).regrouped Expr.unenclosed = i.regrouped Expr.unenclosed := by
  cases i with
  | expr e => simp only [regrouped, e.unenclosed_regrouped h]
  | _ => rfl

theorem Clauses.unenclosed_regrouped (h : Level.Encloses enclose) (c : Clauses) :
    (c.regrouped enclose).regrouped Expr.unenclosed = c.regrouped Expr.unenclosed := by
  simp only [regrouped, List.map_map, Option.map_map, Function.comp_def,
    SelectItem.unenclosed_regrouped h, Expr.unenclosed_regrouped h, Expr.unenclosed_orderItems h]

namespace Statement

mutual

theorem unenclosed_regrouped (h : Level.Encloses enclose) : ∀ s : Statement,
    (s.regrouped enclose).regrouped Expr.unenclosed = s.regrouped Expr.unenclosed
  | select source clauses => by
    simp only [regrouped, unenclosed_source h source, clauses.unenclosed_regrouped h]

theorem unenclosed_source (h : Level.Encloses enclose) : ∀ source : Source,
    (source.regrouped enclose).regrouped Expr.unenclosed = source.regrouped Expr.unenclosed
  | .nothing => by simp only [Source.regrouped]
  | .factor f => by simp only [Source.regrouped, unenclosed_factor h f]
  | .leftJoin left right on => by
    simp only [Source.regrouped, unenclosed_source h left, unenclosed_factor h right,
      on.unenclosed_regrouped h]

theorem unenclosed_factor (h : Level.Encloses enclose) : ∀ f : Factor,
    (f.regrouped enclose).regrouped Expr.unenclosed = f.regrouped Expr.unenclosed
  | .table .. => by simp only [Factor.regrouped]
  | .derived query _ => by simp only [Factor.regrouped, unenclosed_regrouped h query]

end

end Statement

theorem encloses_enclosed : Level.Encloses Expr.enclosed := by
  intro level e
  rw [Expr.enclosed]
  split
  · rfl
  · rw [Expr.regrouped]

/-- Parentheses where they are needed change nothing else. -/
theorem Statement.bare_grouped (s : Statement) : s.grouped.bare = s.bare :=
  s.unenclosed_regrouped encloses_enclosed

/-! ### Grouping -/

namespace Expr

theorem rank_enclosed (level : Level) (e : Expr) : (enclosed level e).level.rank ≤ level.rank := by
  rw [enclosed]
  split
  · assumption
  · exact Nat.zero_le _

theorem Readable.enclosed {e : Expr} (h : e.Readable) (level : Level) :
    (enclosed level e).Readable := by
  rw [Expr.enclosed]
  split
  · exact h
  · have hslots : ∀ p ∈ (paren e).slots, p = (.disjunction, e) := by
      intro p hp
      exact List.mem_singleton.mp hp
    refine .intro rfl ?_ ?_
    · intro p hp
      rw [hslots p hp]
      exact e.level.rank_le
    · intro p hp
      rw [hslots p hp]
      exact h

/-- With parentheses where they are needed every operand stands where it may. -/
theorem readable_grouped {e : Expr} (h : e.Supported) : e.grouped.Readable := by
  induction h with
  | @intro e node _ ih =>
    by_cases hparen : ∃ inner, e = paren inner
    · obtain ⟨inner, rfl⟩ := hparen
      rw [grouped, regrouped]
      exact ih _ (List.mem_singleton.mpr rfl)
    · have hne : ∀ inner, e ≠ paren inner := fun inner heq => hparen ⟨inner, heq⟩
      refine .intro ((isSupported_regrouped hne).trans node) ?_ ?_
      · intro p hp
        rw [grouped, slots_regrouped hne] at hp
        obtain ⟨q, _, rfl⟩ := List.mem_map.mp hp
        exact rank_enclosed q.1 _
      · intro p hp
        rw [grouped, slots_regrouped hne] at hp
        obtain ⟨q, hq, rfl⟩ := List.mem_map.mp hp
        exact (ih q hq).enclosed q.1

theorem Windowed.grouped {e : Expr} (h : e.Windowed Supported) : e.grouped.Windowed Readable := by
  induction h with
  | plain h => exact .plain (readable_grouped h)
  | @window function partition order extent hcall hfunction hne hpartition _ hfirst hlast ih =>
    rw [Expr.grouped, regrouped, regroupedList_eq_map, OrderItem.regroupedList_eq_map]
    refine .window ((isSome_call?_regrouped function).trans hcall) (readable_grouped hfunction)
      (by simpa using hne) ?_ ?_ hfirst hlast
    · intro p hp
      obtain ⟨q, hq, rfl⟩ := List.mem_map.mp hp
      exact (readable_grouped (hpartition q hq)).enclosed _
    · intro i hi
      obtain ⟨j, hj, rfl⟩ := List.mem_map.mp hi
      exact ih j hj

end Expr

theorem SelectItem.Of.grouped {i : SelectItem} (h : i.Of Expr.Supported) :
    (i.regrouped Expr.enclosed).Of Expr.Readable := by
  cases h with
  | wildcard => exact .wildcard
  | tableWildcard table => exact .tableWildcard table
  | expr h => exact .expr h.grouped
  | aliased name h =>
    rw [regrouped, Expr.regrouped]
    exact .aliased name h.grouped

theorem Clauses.Of.grouped {c : Clauses} (h : c.Of Expr.Supported) :
    (c.regrouped Expr.enclosed).Of Expr.Readable where
  nonempty := by simpa [regrouped] using h.nonempty
  items := by
    intro i hi
    obtain ⟨j, hj, rfl⟩ := List.mem_map.mp hi
    exact (h.items j hj).grouped
  condition := by
    intro e he
    obtain ⟨e', he', rfl⟩ := Option.map_eq_some_iff.mp he
    exact Expr.readable_grouped (h.condition e' he')
  groupBy := by
    intro e he
    obtain ⟨e', he', rfl⟩ := List.mem_map.mp he
    exact Expr.readable_grouped (h.groupBy e' he')
  having := by
    intro e he
    obtain ⟨e', he', rfl⟩ := Option.map_eq_some_iff.mp he
    exact Expr.readable_grouped (h.having e' he')
  orderBy := by
    intro i hi
    rw [regrouped, OrderItem.regroupedList_eq_map] at hi
    obtain ⟨j, hj, rfl⟩ := List.mem_map.mp hi
    exact (h.orderBy j hj).grouped
  limit := h.limit

namespace Statement

mutual

/-- With parentheses where they are needed all operands of a query stand where they may. -/
theorem of_grouped : ∀ s : Statement, s.Of Expr.Supported →
    (s.regrouped Expr.enclosed).Of Expr.Readable
  | select source clauses, h => by
    rw [Of] at h
    rw [regrouped, Of]
    exact ⟨source_of_grouped source h.1, h.2.grouped⟩

theorem source_of_grouped : ∀ source : Source, source.Of Expr.Supported →
    (source.regrouped Expr.enclosed).Of Expr.Readable
  | .nothing, _ => by simp only [Source.regrouped, Source.Of]
  | .factor f, h => by
    rw [Source.Of] at h
    rw [Source.regrouped, Source.Of]
    exact factor_of_grouped f h
  | .leftJoin left right on, h => by
    rw [Source.Of] at h
    obtain ⟨hne, hleft, hright, hon⟩ := h
    rw [Source.regrouped, Source.Of]
    refine ⟨?_, source_of_grouped left hleft, factor_of_grouped right hright,
      Expr.readable_grouped hon⟩
    cases left with
    | nothing => exact absurd rfl hne
    | _ => rw [Source.regrouped]; exact nofun

theorem factor_of_grouped : ∀ f : Factor, f.Of Expr.Supported →
    (f.regrouped Expr.enclosed).Of Expr.Readable
  | .table .., _ => by simp only [Factor.regrouped, Factor.Of]
  | .derived query _, h => by
    rw [Factor.Of] at h
    rw [Factor.regrouped, Factor.Of]
    exact of_grouped query h

end

end Statement

end

end TableQuery
