/-
Expressions read from tokens.

From loose to tight the levels of an expression are disjunction, conjunction, negation, comparison,
addition, multiplication, the minus sign, indexing, and what stands by itself. Operators of one
level group to the left, but comparisons do not chain.

Every reader either takes a token or passes on to a tighter level before it calls a reader again,
which is why reading ends.
-/
import TableQuery.Expr.Basic
import TableQuery.Statement.Progress

namespace TableQuery

/-- How tightly the parts of an expression hold together. -/
inductive Level where
  | disjunction
  | conjunction
  | negation
  | comparison
  | addition
  | multiplication
  | sign
  | indexing
  | primary
  deriving Repr, DecidableEq

namespace Level

/-- The number of levels that are tighter. -/
def rank : Level → Nat
  | disjunction => 8
  | conjunction => 7
  | negation => 6
  | comparison => 5
  | addition => 4
  | multiplication => 3
  | sign => 2
  | indexing => 1
  | primary => 0

theorem rank_le (level : Level) : level.rank ≤ 8 := by cases level <;> decide

/-- The operators between operands of disjunctions and conjunctions, sums and products. -/
def operator? : Level → Token → Option BinaryOperator
  | disjunction, .keyword .or => some .or
  | conjunction, .keyword .and => some .and
  | addition, .sign .plus => some .add
  | addition, .sign .minus => some .sub
  | multiplication, .sign .star => some .mul
  | multiplication, .sign .slash => some .div
  | multiplication, .sign .percent => some .mod
  | comparison, .sign .equal => some .eq
  | comparison, .sign .notEqual => some .ne
  | comparison, .sign .less => some .lt
  | comparison, .sign .greater => some .gt
  | comparison, .sign .lessEqual => some .le
  | comparison, .sign .greaterEqual => some .ge
  | _, _ => none

end Level

namespace Expr

/-- The predicates that a keyword behind an operand begins. -/
inductive Predicate where
  | isIn
  | isLike (kind : PatternKind)
  deriving Repr, DecidableEq

/-- The predicate that a token begins. -/
def predicate? : Token → Option Predicate
  | .keyword .«in» => some .isIn
  | .keyword .like => some (.isLike .like)
  | .keyword .rlike => some (.isLike .rlike)
  | _ => none

/-- Takes the start of a predicate, which `not` in front of it negates. -/
def acceptPredicate? (ts : List Token) : Option (Parsed (Predicate × Bool) 1 ts) :=
  match ts with
  | .keyword .not :: t :: _ =>
    (predicate? t).map fun p => Parsed.behindTwo (p, true)
  | t :: _ =>
    (predicate? t).map fun p => Parsed.behindOne (p, false)
  | [] => none

/-- The quantifier that a token is. -/
def quantifier? : Token → Option Quantifier
  | .keyword .distinct => some .distinct
  | .keyword .all => some .all
  | _ => none

/-- Takes a quantifier if there is one. -/
def readQuantifier (ts : List Token) : Parse (Option Quantifier) 0 ts :=
  match Token.accept? quantifier? ts with
  | some ⟨q, _, suffix, taken⟩ => .behind suffix taken (.done (some q))
  | none => .done none

/-- The number that digits of a token stand for. -/
def ofDigits (digits : String) : Expr :=
  literal (.number ((Number.read? digits.toList).getD Number.notANumber))

/-- A field, qualified if a point and a name follow. -/
def readField (name : String) (ts : List Token) : Parse Expr 0 ts :=
  match Token.acceptToken? (.sign .dot) ts with
  | some ⟨_, rest, suffix, taken⟩ =>
    .behind suffix taken ((Token.expectName rest).map (qualified name))
  | none => .done (field name)

/-- The type that a name stands for. -/
def readType (ts : List Token) : Parse CastType 1 ts :=
  (Token.expectName ts).andThen fun name _ _ =>
    match CastType.ofName? name with
    | some t => .done t
    | none => .error (.unknownType name)

mutual

/-- Reads an expression of a level. -/
def read (level : Level) (ts : List Token) : Parse Expr 1 ts :=
  match level with
  | .disjunction =>
    (read .conjunction ts).andThen fun left rest _ => readChain .disjunction .conjunction left rest
  | .conjunction =>
    (read .negation ts).andThen fun left rest _ => readChain .conjunction .negation left rest
  | .negation =>
    match Token.acceptToken? (.keyword .not) ts with
    | some ⟨_, rest, suffix, taken⟩ => .behind suffix taken ((read .negation rest).map (unary .not))
    | none => read .comparison ts
  | .comparison => (read .addition ts).andThen fun left rest _ => readComparison left rest
  | .addition =>
    (read .multiplication ts).andThen fun left rest _ =>
      readChain .addition .multiplication left rest
  | .multiplication =>
    (read .sign ts).andThen fun left rest _ => readChain .multiplication .sign left rest
  | .sign =>
    match Token.acceptToken? (.sign .minus) ts with
    | some ⟨_, rest, suffix, taken⟩ => .behind suffix taken ((read .sign rest).map (unary .minus))
    | none => read .indexing ts
  | .indexing => (read .primary ts).andThen fun base rest _ => readIndexes base rest
  | .primary => readPrimary ts
termination_by 16 * ts.length + (level.rank + 1)
decreasing_by all_goals ((try simp only [Level.rank]); omega)

/-- Reads further operands of a level behind the operators between them. -/
def readChain (level operand : Level) (left : Expr) (ts : List Token) : Parse Expr 0 ts :=
  match Token.accept? level.operator? ts with
  | some ⟨op, rest, suffix, taken⟩ =>
    .behind suffix taken ((read operand rest).andThen fun right rest _ =>
      readChain level operand (binary op left right) rest)
  | none => .done left
termination_by 16 * ts.length
decreasing_by all_goals (have h := operand.rank_le; omega)

/-- Reads what an operand is compared with, if anything. -/
def readComparison (left : Expr) (ts : List Token) : Parse Expr 0 ts :=
  match Token.acceptToken? (.keyword .is) ts with
  | some ⟨_, rest, suffix, taken⟩ =>
    .behind suffix taken (match Token.acceptToken? (.keyword .not) rest with
      | some ⟨_, rest, suffix, taken⟩ =>
        .behind suffix taken ((Token.expect (.keyword .null) rest).map fun _ => isNull left true)
      | none => ((Token.expect (.keyword .null) rest).map fun _ => isNull left false))
  | none =>
    match acceptPredicate? ts with
    | some ⟨(.isIn, negated), rest, suffix, taken⟩ =>
      .behind suffix taken ((Token.expect (.sign .leftParen) rest).andThen fun _ rest _ =>
        (readItems rest).map fun items => isIn left items negated)
    | some ⟨(.isLike kind, negated), rest, suffix, taken⟩ =>
      .behind suffix taken ((read .addition rest).map fun p => isLike kind left p negated)
    | none =>
      match Token.accept? Level.comparison.operator? ts with
      | some ⟨op, rest, suffix, taken⟩ =>
        .behind suffix taken ((read .addition rest).map (binary op left))
      | none => .done left
termination_by 16 * ts.length
decreasing_by all_goals ((try simp only [Level.rank]); omega)

/-- Reads any number of indexes between brackets. -/
def readIndexes (base : Expr) (ts : List Token) : Parse Expr 0 ts :=
  match Token.acceptToken? (.sign .leftBracket) ts with
  | some ⟨_, rest, suffix, taken⟩ =>
    .behind suffix taken ((read .disjunction rest).andThen fun position rest _ =>
      (Token.expect (.sign .rightBracket) rest).andThen fun _ rest _ =>
        readIndexes (index base position) rest)
  | none => .done base
termination_by 16 * ts.length
decreasing_by all_goals ((try simp only [Level.rank]); omega)

/-- Reads an expression that holds together by itself. -/
def readPrimary (ts : List Token) : Parse Expr 1 ts :=
  match Token.accept? some ts with
  | none => .error (.inExpression .eof)
  | some ⟨t, rest, suffix, taken⟩ =>
    match t with
    | .number digits => .behind suffix taken (.done (ofDigits digits))
    | .string s => .behind suffix taken (.done (literal (.string s)))
    | .keyword .«true» => .behind suffix taken (.done (literal (.boolean true)))
    | .keyword .«false» => .behind suffix taken (.done (literal (.boolean false)))
    | .keyword .null => .behind suffix taken (.done (literal .null))
    | .sign .leftParen =>
      if Token.front rest = .keyword .select then .error .queryInExpression
      else .behind suffix taken ((read .disjunction rest).andThen fun e rest _ =>
        (Token.expect (.sign .rightParen) rest).map fun _ => paren e)
    | .keyword .case =>
      if Token.front rest = .keyword .when then
        .behind suffix taken ((readBranches true rest).map searchedCase)
      else
        .behind suffix taken ((read .disjunction rest).andThen fun base rest _ =>
          (readBranches true rest).map (simpleCase base))
    | .keyword .cast =>
      .behind suffix taken ((Token.expect (.sign .leftParen) rest).andThen fun _ rest _ =>
        (read .disjunction rest).andThen fun e rest _ =>
        (Token.expect (.keyword .as) rest).andThen fun _ rest _ =>
        (readType rest).andThen fun target rest _ =>
        (Token.expect (.sign .rightParen) rest).map fun _ => cast e target)
    | .identifier name =>
      match Token.acceptToken? (.sign .leftParen) rest with
      | some ⟨_, rest', suffix', taken'⟩ =>
        .behind suffix taken
          (Parse.behind suffix' taken' (readArguments name rest') : Parse Expr 1 rest)
      | none => .behind suffix taken (readField name rest)
    | .quoted name => .behind suffix taken (readField name rest)
    | t => .error (.inExpression t)
termination_by 16 * ts.length
decreasing_by all_goals ((try simp only [Level.rank]); omega)

/-- Reads the arguments of a call behind their opening parenthesis. -/
def readArguments (name : String) (ts : List Token) : Parse Expr 1 ts :=
  match Token.acceptToken? (.sign .star) ts with
  | some ⟨_, rest, suffix, taken⟩ =>
    .behind suffix taken ((Token.expect (.sign .rightParen) rest).map fun _ => callStar name)
  | none =>
    (readQuantifier ts).before fun q rest _ => (readItems rest).map (call name q)
termination_by 16 * ts.length + 12
decreasing_by all_goals omega

/-- Reads expressions between commas, or none, up to the closing parenthesis. -/
def readItems (ts : List Token) : Parse (List Expr) 1 ts :=
  match Token.acceptToken? (.sign .rightParen) ts with
  | some r => .ok (r.map fun _ => [])
  | none =>
    (readList ts).andThen fun items rest _ =>
      (Token.expect (.sign .rightParen) rest).map fun _ => items
termination_by 16 * ts.length + 11
decreasing_by all_goals omega

/-- Reads expressions between commas. -/
def readList (ts : List Token) : Parse (List Expr) 1 ts :=
  (read .disjunction ts).andThen fun e rest _ =>
    match Token.acceptToken? (.sign .comma) rest with
    | some ⟨_, rest, suffix, taken⟩ => .behind suffix taken ((readList rest).map (e :: ·))
    | none => .done [e]
termination_by 16 * ts.length + 10
decreasing_by all_goals ((try simp only [Level.rank]); omega)

/-- Reads the branches of a case distinction up to their end; there has to be a first one. -/
def readBranches (first : Bool) (ts : List Token) : Parse Branches 1 ts :=
  match Token.acceptToken? (.keyword .when) ts with
  | some ⟨_, rest, suffix, taken⟩ =>
    .behind suffix taken ((read .disjunction rest).andThen fun condition rest _ =>
      (Token.expect (.keyword .«then») rest).andThen fun _ rest _ =>
      (read .disjunction rest).andThen fun result rest _ =>
      (readBranches false rest).map (.branch condition result))
  | none =>
    if first then .error .caseWithoutBranch
    else match Token.acceptToken? (.keyword .«else») ts with
    | some ⟨_, rest, suffix, taken⟩ =>
      .behind suffix taken ((read .disjunction rest).andThen fun e rest _ =>
        (Token.expect (.keyword .«end») rest).map fun _ => .otherwise e)
    | none => (Token.expect (.keyword .«end») ts).map fun _ => .finish
termination_by 16 * ts.length
decreasing_by all_goals ((try simp only [Level.rank]); omega)

end

end Expr

end TableQuery
