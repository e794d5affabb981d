/-
Queries as tokens.

A query is written with the parentheses that its tree has: `Spelling.expr`, `Spelling.statement`. On
its way to the tokens a tree is regrouped: its own parentheses mean nothing, so they are dropped, and
an operand that is looser than its place is put between new ones.

* `Expr.slots` — the operands of an expression and the loosest level each of them may stand on;
* `Expr.regrouped`, `Statement.regrouped` — the tree with every operand enclosed in some way;
* `Expr.grouped`, `Statement.grouped` — enclosed in parentheses where they are needed and nowhere
  else;
* `Expr.bare`, `Statement.bare` — without any parentheses, which is what a tree means.
-/
import TableQuery.Statement.Parser
import TableQuery.Proofs.Operands
import TableQuery.Proofs.Reading

namespace TableQuery

/-! ### Places of operands -/

/-- The level of an expression with the operator outermost. -/
def BinaryOperator.level : BinaryOperator → Level
  | or => .disjunction
  | and => .conjunction
  | eq | ne | lt | le | gt | ge => .comparison
  | add | sub => .addition
  | mul | div | mod => .multiplication

/-- The level of an expression with the operator in front, and of its operand. -/
def UnaryOperator.level : UnaryOperator → Level
  | not => .negation
  | minus => .sign

/-- The loosest level of a left operand: operators of one level group to the left, but comparisons
do not chain. -/
def Level.left : Level → Level
  | comparison => addition
  | level => level

/-- The level of an expression, which is that of its outermost operator. -/
def Expr.level : Expr → Level
  | .binary op _ _ => op.level
  | .unary op _ => op.level
  | .isNull .. | .isIn .. | .isLike .. => .comparison
  | .index .. => .indexing
  | _ => .primary

/-- The operands of an expression, each with the loosest level that it may stand on. -/
def Expr.slots : Expr → List (Level × Expr)
  | .literal _ | .field _ | .qualified .. | .callStar _ | .aliased .. | .window .. => []
  | .binary op l r => [(op.level.left, l), (op.level.tighter, r)]
  | .unary op e => [(op.level, e)]
  | .isNull e _ => [(.addition, e)]
  | .isIn e items _ => (.addition, e) :: items.map (Level.disjunction, ·)
  | .isLike _ e p _ => [(.addition, e), (.addition, p)]
  | .cast e _ => [(.disjunction, e)]
  | .searchedCase branches => branches.operands.map (Level.disjunction, ·)
  | .simpleCase base branches => (.disjunction, base) :: branches.operands.map (Level.disjunction, ·)
  | .call _ _ arguments => arguments.map (Level.disjunction, ·)
  | .index base position => [(.indexing, base), (.disjunction, position)]
  | .paren e => [(.disjunction, e)]

mutual

/-- The expression without its parentheses and with every operand enclosed in some way, for the
loosest level that it may stand on. -/
def Expr.regrouped (enclose : Level → Expr → Expr) : Expr → Expr
  | .literal v => .literal v
  | .field name => .field name
  | .qualified table name => .qualified table name
  | .binary op l r =>
    .binary op (enclose op.level.left (l.regrouped enclose))
      (enclose op.level.tighter (r.regrouped enclose))
  | .unary op e => .unary op (enclose op.level (e.regrouped enclose))
  | .isNull e negated => .isNull (enclose .addition (e.regrouped enclose)) negated
  | .isIn e items negated =>
    .isIn (enclose .addition (e.regrouped enclose)) (Expr.regroupedList enclose items) negated
  | .isLike kind e p negated =>
    .isLike kind (enclose .addition (e.regrouped enclose)) (enclose .addition (p.regrouped enclose))
      negated
  | .cast e target => .cast (enclose .disjunction (e.regrouped enclose)) target
  | .searchedCase branches => .searchedCase (branches.regrouped enclose)
  | .simpleCase base branches =>
    .simpleCase (enclose .disjunction (base.regrouped enclose)) (branches.regrouped enclose)
  | .call name q arguments => .call name q (Expr.regroupedList enclose arguments)
  | .callStar name => .callStar name
  | .index base position =>
    .index (enclose .indexing (base.regrouped enclose))
      (enclose .disjunction (position.regrouped enclose))
  | .aliased e name => .aliased (e.regrouped enclose) name
  | .window function partition order extent =>
    .window (function.regrouped enclose) (Expr.regroupedList enclose partition)
      (OrderItem.regroupedList enclose order) extent
  | .paren e => e.regrouped enclose

/-- Several expressions regrouped. -/
def Expr.regroupedList (enclose : Level → Expr → Expr) : List Expr → List Expr
  | [] => []
  | e :: es => enclose .disjunction (e.regrouped enclose) :: Expr.regroupedList enclose es

/-- Branches with all conditions and results regrouped. -/
def Branches.regrouped (enclose : Level → Expr → Expr) : Branches → Branches
  | .finish => .finish
  | .otherwise e => .otherwise (enclose .disjunction (e.regrouped enclose))
  | .branch c r rest =>
    .branch (enclose .disjunction (c.regrouped enclose)) (enclose .disjunction (r.regrouped enclose))
      (rest.regrouped enclose)

/-- Items to sort by with their expressions regrouped. -/
def OrderItem.regroupedList (enclose : Level → Expr → Expr) : List OrderItem → List OrderItem
  | [] => []
  | .mk e d :: items => .mk (e.regrouped enclose) d :: OrderItem.regroupedList enclose items

end

/-- The expression on a level: between parentheses if it is looser. -/
def Expr.enclosed (level : Level) (e : Expr) : Expr :=
  if e.level.rank ≤ level.rank then e else .paren e

/-- The expression as it is on any level. -/
def Expr.unenclosed (_ : Level) (e : Expr) : Expr := e

/-- The expression with parentheses where they are needed and nowhere else. -/
def Expr.grouped (e : Expr) : Expr := e.regrouped Expr.enclosed

/-- The expression without parentheses. -/
def Expr.bare (e : Expr) : Expr := e.regrouped Expr.unenclosed

section

variable (enclose : Level → Expr → Expr)

/-- An item of what is selected with its expression regrouped. -/
def SelectItem.regrouped : SelectItem → SelectItem
  | .wildcard => .wildcard
  | .tableWildcard table => .tableWildcard table
  | .expr e => .expr (e.regrouped enclose)

/-- The clauses of a query with their expressions regrouped. -/
def Clauses.regrouped (c : Clauses) : Clauses where
  quantifier := c.quantifier
  items := c.items.map (SelectItem.regrouped enclose)
  condition := c.condition.map (Expr.regrouped enclose)
  groupBy := c.groupBy.map (Expr.regrouped enclose)
  having := c.having.map (Expr.regrouped enclose)
  orderBy := OrderItem.regroupedList enclose c.orderBy
  limit := c.limit

mutual

/-- A query with its expressions regrouped. -/
def Statement.regrouped : Statement → Statement
  | .select source clauses => .select source.regrouped (clauses.regrouped enclose)

/-- A source with its expressions regrouped. -/
def Source.regrouped : Source → Source
  | .nothing => .nothing
  | .factor f => .factor f.regrouped
  | .leftJoin left right on => .leftJoin left.regrouped right.regrouped (on.regrouped enclose)

/-- A factor with its expressions regrouped. -/
def Factor.regrouped : Factor → Factor
  | .table name renamed => .table name renamed
  | .derived query name => .derived query.regrouped name

end

end

/-- The query with parentheses where they are needed and nowhere else. -/
def Statement.grouped (s : Statement) : Statement := s.regrouped Expr.enclosed

/-- The query without parentheses in its expressions. -/
def Statement.bare (s : Statement) : Statement := s.regrouped Expr.unenclosed

/-! ### Tokens -/

/-- A number that a literal can have: finite, and without a minus sign. -/
def Number.IsLiteral (x : Float) : Prop := exponentBits x ≠ 2047 ∧ isNegative x = false

/-- A way of writing names and numbers, from which they are read back. -/
structure Spelling where
  name : String → Token
  digits : Float → String
  name?_name : ∀ n, (name n).name? = some n
  read?_digits : ∀ x, Number.IsLiteral x → Number.read? (digits x).toList = some x

/-- The token of an operator between two operands. -/
def BinaryOperator.token : BinaryOperator → Token
  | add => .sign .plus
  | sub => .sign .minus
  | mul => .sign .star
  | div => .sign .slash
  | mod => .sign .percent
  | eq => .sign .equal
  | ne => .sign .notEqual
  | lt => .sign .less
  | le => .sign .lessEqual
  | gt => .sign .greater
  | ge => .sign .greaterEqual
  | and => .keyword .and
  | or => .keyword .or

/-- The token of an operator in front of an operand. -/
def UnaryOperator.token : UnaryOperator → Token
  | not => .keyword .not
  | minus => .sign .minus

/-- The token of a comparison with a pattern. -/
def PatternKind.token : PatternKind → Token
  | like => .keyword .like
  | rlike => .keyword .rlike

/-- The token of a direction. -/
def Direction.token : Direction → Token
  | ascending => .keyword .asc
  | descending => .keyword .desc

/-- The token of a quantifier. -/
def Quantifier.token : Quantifier → Token
  | distinct => .keyword .distinct
  | all => .keyword .all

/-- The token of a count. -/
def Token.count (n : Nat) : Token := .number (toString n)

/-- The tokens of one end of the range of a window. -/
def Bound.tokens : Bound → List Token
  | unboundedPreceding => [.identifier "unbounded", .identifier "preceding"]
  | preceding n => [.count n, .identifier "preceding"]
  | currentRow => [.identifier "current", .identifier "row"]
  | following n => [.count n, .identifier "following"]
  | unboundedFollowing => [.identifier "unbounded", .identifier "following"]

/-- The tokens of the range of a window. -/
def Extent.tokens (x : Extent) : List Token :=
  [.identifier "rows", .identifier "between"] ++ x.first.tokens ++ [.keyword .and] ++ x.last.tokens

/-- The tokens of how many rows are skipped and kept. -/
def Limit.tokens : Limit → List Token
  | ⟨offset, some n⟩ => [.keyword .limit, .count offset, .sign .comma, .count n]
  | ⟨_, none⟩ => []

namespace Spelling

variable (s : Spelling)

/-- The token of a value; queries have none for a list. -/
def literal : Value → Token
  | .null => .keyword .null
  | .boolean true => .keyword .«true»
  | .boolean false => .keyword .«false»
  | .number x => .number (s.digits x)
  | .string text => .string text
  | .list _ => .eof

/-- A token if there is one, in front of others. -/
def optional (t : Option Token) (rest : List Token) : List Token := t.toList ++ rest

/-- The word that negates a predicate, in front of others. -/
def negation (negated : Bool) (rest : List Token) : List Token :=
  if negated then .keyword .not :: rest else rest

mutual

/-- The tokens of an expression, in front of others. -/
def expr : Expr → List Token → List Token
  | .literal v, rest => s.literal v :: rest
  | .field name, rest => s.name name :: rest
  | .qualified table name, rest => s.name table :: .sign .dot :: s.name name :: rest
  | .binary op l r, rest => expr l (op.token :: expr r rest)
  | .unary op e, rest => op.token :: expr e rest
  | .isNull e negated, rest =>
    expr e (.keyword .is :: negation negated (.keyword .null :: rest))
  | .isIn e items negated, rest =>
    expr e (negation negated (.keyword .«in» :: .sign .leftParen ::
      list [] items (.sign .rightParen :: rest)))
  | .isLike kind e p negated, rest => expr e (negation negated (kind.token :: expr p rest))
  | .cast e target, rest =>
    .keyword .cast :: .sign .leftParen ::
      expr e (.keyword .as :: s.name target.name :: .sign .rightParen :: rest)
  | .searchedCase bs, rest => .keyword .case :: branches bs rest
  | .simpleCase base bs, rest => .keyword .case :: expr base (branches bs rest)
  | .call name q arguments, rest =>
    .identifier name :: .sign .leftParen ::
      optional (q.map Quantifier.token) (list [] arguments (.sign .rightParen :: rest))
  | .callStar name, rest =>
    .identifier name :: .sign .leftParen :: .sign .star :: .sign .rightParen :: rest
  | .index base position, rest =>
    expr base (.sign .leftBracket :: expr position (.sign .rightBracket :: rest))
  | .aliased e name, rest => expr e (.keyword .as :: s.name name :: rest)
  | .window function partition order extent, rest =>
    expr function (.identifier "over" :: .sign .leftParen ::
      list [.identifier "partition", .keyword .«by»] partition
        (orderItems [.keyword .order, .keyword .«by»] order
          (extent.tokens ++ .sign .rightParen :: rest)))
  | .paren e, rest => .sign .leftParen :: expr e (.sign .rightParen :: rest)

/-- The tokens of expressions, the lead in front of the first and a comma in front of every other
one. -/
def list : List Token → List Expr → List Token → List Token
  | _, [], rest => rest
  | lead, e :: es, rest => lead ++ expr e (list [.sign .comma] es rest)

/-- The tokens of branches up to their end. -/
def branches : Branches → List Token → List Token
  | .finish, rest => .keyword .«end» :: rest
  | .otherwise e, rest => .keyword .«else» :: expr e (.keyword .«end» :: rest)
  | .branch c r more, rest =>
    .keyword .when :: expr c (.keyword .«then» :: expr r (branches more rest))

/-- The tokens of items to sort by, with a lead and commas. -/
def orderItems : List Token → List OrderItem → List Token → List Token
  | _, [], rest => rest
  | lead, .mk e d :: items, rest =>
    lead ++ expr e (d.token :: orderItems [.sign .comma] items rest)

end

/-- The tokens of a word and the expression behind it, if there is one. -/
def clause (k : Keyword) (e : Option Expr) (rest : List Token) : List Token :=
  match e with
  | some e => .keyword k :: s.expr e rest
  | none => rest

/-- The tokens of an item of what is selected. -/
def item : SelectItem → List Token → List Token
  | .wildcard, rest => .sign .star :: rest
  | .tableWildcard table, rest => s.name table :: .sign .dot :: .sign .star :: rest
  | .expr e, rest => s.expr e rest

/-- The tokens of items of what is selected, with a lead and commas. -/
def items : List Token → List SelectItem → List Token → List Token
  | _, [], rest => rest
  | lead, i :: is, rest => lead ++ s.item i (items [.sign .comma] is rest)

/-- The tokens of the clauses behind a source. -/
def clauses (c : Clauses) (rest : List Token) : List Token :=
  s.clause .«where» c.condition <|
  s.list [.keyword .group, .keyword .«by»] c.groupBy <|
  s.clause .having c.having <|
  s.orderItems [.keyword .order, .keyword .«by»] c.orderBy <|
  (c.limit.elim [] Limit.tokens) ++ rest

mutual

/-- The tokens of a query, in front of others. -/
def statement : Statement → List Token → List Token
  | .select src c, rest =>
    .keyword .select :: optional (c.quantifier.map Quantifier.token)
      (s.items [] c.items (source src (s.clauses c rest)))

/-- The tokens of a source and the word in front of it. -/
def source : Source → List Token → List Token
  | .nothing, rest => rest
  | .factor f, rest => .keyword .«from» :: factor f rest
  | .leftJoin left right on, rest =>
    source left (.keyword .left :: .keyword .join ::
      factor right (.keyword .on :: s.expr on rest))

/-- The tokens of a table or a query between parentheses. -/
def factor : Factor → List Token → List Token
  | .table name none, rest => s.name name :: rest
  | .table name (some renamed), rest => s.name name :: .keyword .as :: s.name renamed :: rest
  | .derived query name, rest =>
    .sign .leftParen ::
      statement query (.sign .rightParen :: .keyword .as :: s.name name :: rest)

end

end Spelling

end TableQuery
