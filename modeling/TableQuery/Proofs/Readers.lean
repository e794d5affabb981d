/-
What readers call.

A reader takes tokens from the front and calls other readers on what is left. `Reader.body` says what each
reader does, with every call of a reader left open: it may be answered in any way. An answer may also be
refused, and then the whole attempt comes to nothing.

* `Attempt` — attempts to read, which may fail with an error or come to nothing;
* `Reader`, `Reader.read` — the readers that call readers, and what they are;
* `Reader.body` — what they do, from the answers of the readers that they call;
* `Reader.MayCall` — calls behind a token that was taken, or on a tighter level;
* `Reader.within` — readers that make no other calls, and whose calls are nested to a limit.
-/
import TableQuery.Proofs.Reading
import TableQuery.Statement.Parser

namespace TableQuery

/-! ### Attempts -/

/-- Tries to read something from the front of tokens. This leaves other tokens, or ends with an error, or
comes to nothing. -/
abbrev Attempt (α : Type) := StateT (List Token) (ExceptT ParseError Option) α

/-- What an attempt comes to that succeeds or ends with an error. -/
def Parse.attempted {α : Type} {n : Nat} {ts : List Token} (p : Parse α n ts) :
    Option (Except ParseError (α × List Token)) :=
  match p with
  | .error e => some (.error e)
  | .ok r => some (.ok (r.value, r.rest))

namespace Parse

variable {α β γ : Type} {k m n : Nat} {ts : List Token}

theorem andThen_assoc (p : Parse α m ts)
    (f : (a : α) → (rest : List Token) → rest.length + m ≤ ts.length → Parse β n rest)
    (g : (b : β) → (rest : List Token) → Parse γ k rest) :
    (p.andThen f).andThen (fun b rest _ => g b rest) =
      p.andThen fun a rest taken => (f a rest taken).andThen fun b rest _ => g b rest := by
  cases p with
  | error e => rfl
  | ok r =>
    simp only [andThen]
    cases f r.value r.rest r.taken with
    | error e => rfl
    | ok r' =>
      obtain ⟨b, rest', suffix', taken'⟩ := r'
      simp only
      cases g b rest' <;> rfl

theorem map_andThen (p : Parse α m ts) (f : α → β) (g : (b : β) → (rest : List Token) → Parse γ n rest) :
    (p.map f).andThen (fun b rest _ => g b rest) = p.andThen fun a rest _ => g (f a) rest := by
  cases p <;> rfl

end Parse

namespace Attempt

variable {α : Type} {n : Nat}

/-- Ends with an error. -/
def fail (e : ParseError) : Attempt α := fun _ => some (.error e)

/-- Takes what stands in front, if there is a use for it. -/
def accept (q : (ts : List Token) → Option (Parsed α 1 ts)) : Attempt (Option α) := fun ts =>
  match q ts with
  | some r => some (.ok (some r.value, r.rest))
  | none => some (.ok (none, ts))

/-- Reads what takes no calls of readers. -/
def leaf (p : (ts : List Token) → Parse α n ts) : Attempt α := fun ts => (p ts).attempted

/-- What stands behind a keyword, or nothing without the keyword. -/
def optional (k : Keyword) (s : Attempt α) : Attempt (Option α) := do
  match ← accept (Token.acceptToken? (.keyword k)) with
  | some _ => return some (← s)
  | none => return none

/-- Takes the words that begin a clause, if its keyword stands in front. -/
def clause (k : Keyword) : Attempt Bool := do
  match ← accept (Token.acceptToken? (.keyword k)) with
  | some _ =>
    leaf (Token.expect (.keyword .«by»))
    return true
  | none => return false

end Attempt

/-! ### Readers -/

/-- Reads one join to what stands on its left. -/
def Statement.readJoin (left : Source) (ts : List Token) : Parse Source 1 ts :=
  (readJoinWords ts).andThen fun _ rest _ =>
    (readFactor rest).andThen fun right rest _ =>
    (Token.expect (.keyword .on) rest).andThen fun _ rest _ =>
    (Expr.read .disjunction rest).map (.leftJoin left right)

theorem Statement.readJoins_eq (left : Source) (ts : List Token) :
    readJoins left ts = if startsJoin (Token.front ts) then
      ((readJoin left ts).andThen fun joined rest _ => readJoins joined rest).weaken
    else .done left := by
  rw [readJoins, readJoin]
  simp only [Parse.andThen_assoc, Parse.map_andThen]

/-- Nothing may follow a query but the end. -/
def Statement.readEnd (s : Statement) (ts : List Token) : Parse Statement 0 ts :=
  if Token.front ts = .eof then .done s else .error (.afterStatement (Token.front ts))

/-- Reads the one query that tokens are, with an optional semicolon behind it. -/
def Statement.readWhole (ts : List Token) : Parse Statement 1 ts :=
  (read ts).andThen fun s rest _ =>
    match Token.acceptToken? (.sign .semicolon) rest with
    | some ⟨_, rest, suffix, taken⟩ => .behind suffix taken (readEnd s rest)
    | none => readEnd s rest

theorem Statement.ofTokens_eq (ts : List Token) :
    ofTokens ts = Except.map Parsed.value (readWhole ts) := by
  rw [ofTokens, readWhole]
  cases read ts with
  | error e => rfl
  | ok r =>
    obtain ⟨s, rest, suffix, taken⟩ := r
    simp only [Parse.andThen]
    cases Token.acceptToken? (.sign .semicolon) rest with
    | none =>
      simp only [readEnd]
      split <;> rfl
    | some r' =>
      simp only [readEnd]
      split <;> rfl

/-- The readers that call readers, with what they are given. -/
inductive Reader where
  | whole
  | statement
  | selectItems
  | selectItem
  | source
  | joins (left : Source)
  | join (left : Source)
  | factor
  | windowed
  | window (function : Expr)
  | order
  | orderItems
  | level (level : Level)
  | chain (level operand : Level) (left : Expr)
  | comparison (left : Expr)
  | indexes (base : Expr)
  | primary
  | arguments (name : String)
  | items
  | list
  | branches (first : Bool)

namespace Reader

/-- What a reader gives. -/
@[reducible] def Answer : Reader → Type
  | whole | statement => Statement
  | selectItems => List SelectItem
  | selectItem => SelectItem
  | source | joins _ | join _ => Source
  | factor => Factor
  | order | orderItems => List OrderItem
  | items | list => List Expr
  | branches _ => Branches
  | windowed | window _ | level _ | chain .. | comparison _ | indexes _ | primary | arguments _ => Expr

/-- The number of tokens that a reader takes at least. What goes on behind an operand or a factor may find
that nothing follows, and clauses may be missing. -/
@[reducible] def least : Reader → Nat
  | source | joins _ | order | chain .. | comparison _ | indexes _ => 0
  | whole | statement | selectItems | selectItem | join _ | factor | windowed | window _ | orderItems
  | level _ | primary | arguments _ | items | list | branches _ => 1

/-- The readers. -/
def read : (r : Reader) → (ts : List Token) → Parse r.Answer r.least ts
  | whole, ts => Statement.readWhole ts
  | statement, ts => Statement.read ts
  | selectItems, ts => Statement.readItems ts
  | selectItem, ts => Statement.readItem ts
  | source, ts => Statement.readSource ts
  | joins left, ts => Statement.readJoins left ts
  | join left, ts => Statement.readJoin left ts
  | factor, ts => Statement.readFactor ts
  | windowed, ts => Expr.readWindowed ts
  | window function, ts => Expr.readWindow function ts
  | order, ts => Expr.readOrder ts
  | orderItems, ts => Expr.readOrderItems ts
  | level l, ts => Expr.read l ts
  | chain l operand left, ts => Expr.readChain l operand left ts
  | comparison left, ts => Expr.readComparison left ts
  | indexes base, ts => Expr.readIndexes base ts
  | primary, ts => Expr.readPrimary ts
  | arguments name, ts => Expr.readArguments name ts
  | items, ts => Expr.readItems ts
  | list, ts => Expr.readList ts
  | branches first, ts => Expr.readBranches first ts

/-- How many readers are tighter. A reader that takes no token before it calls another one has to be looser
than that one. -/
def rank : Reader → Nat
  | primary => 0
  | level l => l.rank + 1
  | list | windowed => 10
  | items | orderItems | selectItem => 11
  | arguments _ | selectItems => 12
  | whole | joins _ => 1
  | statement | source | join _ | factor | window _ | order | chain .. | comparison _ | indexes _
  | branches _ => 0

theorem rank_lt (r : Reader) : r.rank < 13 := by
  cases r with
  | level l =>
    have h := l.rank_le
    simp only [rank]
    omega
  | _ => simp [rank]

/-! ### Calls -/

open Attempt

/-- The operators of a level, one after the other, with their operands. -/
def bodyOfLevel (call : (r : Reader) → Attempt r.Answer) : Level → Attempt Expr
  | .disjunction => do
    let left ← call (level .conjunction)
    call (chain .disjunction .conjunction left)
  | .conjunction => do
    let left ← call (level .negation)
    call (chain .conjunction .negation left)
  | .negation => do
    match ← accept (Token.acceptToken? (.keyword .not)) with
    | some _ =>
      let e ← call (level .negation)
      return .unary .not e
    | none => call (level .comparison)
  | .comparison => do
    let left ← call (level .addition)
    call (comparison left)
  | .addition => do
    let left ← call (level .multiplication)
    call (chain .addition .multiplication left)
  | .multiplication => do
    let left ← call (level .sign)
    call (chain .multiplication .sign left)
  | .sign => do
    match ← accept (Token.acceptToken? (.sign .minus)) with
    | some _ =>
      let e ← call (level .sign)
      return .unary .minus e
    | none => call (level .indexing)
  | .indexing => do
    let base ← call (level .primary)
    call (indexes base)
  | .primary => call primary

/-- What is compared with an operand. -/
def bodyOfComparison (call : (r : Reader) → Attempt r.Answer) (left : Expr) : Attempt Expr := do
  match ← accept (Token.acceptToken? (.keyword .is)) with
  | some _ =>
    match ← accept (Token.acceptToken? (.keyword .not)) with
    | some _ =>
      leaf (Token.expect (.keyword .null))
      return .isNull left true
    | none =>
      leaf (Token.expect (.keyword .null))
      return .isNull left false
  | none =>
    match ← accept Expr.acceptPredicate? with
    | some (.isIn, negated) =>
      leaf (Token.expect (.sign .leftParen))
      let es ← call items
      return .isIn left es negated
    | some (.isLike kind, negated) =>
      let p ← call (level .addition)
      return .isLike kind left p negated
    | none =>
      match ← accept (Token.accept? Level.comparison.operator?) with
      | some op =>
        let right ← call (level .addition)
        return .binary op left right
      | none => return left

/-- What begins with a token that holds together by itself. -/
def bodyOfPrimary (call : (r : Reader) → Attempt r.Answer) : Token → Attempt Expr
  | .number digits => return Expr.ofDigits digits
  | .string s => return .literal (.string s)
  | .keyword .«true» => return .literal (.boolean true)
  | .keyword .«false» => return .literal (.boolean false)
  | .keyword .null => return .literal .null
  | .sign .leftParen => do
    if Token.front (← get) = .keyword .select then fail .queryInExpression
    else
      let e ← call (level .disjunction)
      leaf (Token.expect (.sign .rightParen))
      return .paren e
  | .keyword .case => do
    if Token.front (← get) = .keyword .when then
      let bs ← call (branches true)
      return .searchedCase bs
    else
      let base ← call (level .disjunction)
      let bs ← call (branches true)
      return .simpleCase base bs
  | .keyword .cast => do
    leaf (Token.expect (.sign .leftParen))
    let e ← call (level .disjunction)
    leaf (Token.expect (.keyword .as))
    let target ← leaf Expr.readType
    leaf (Token.expect (.sign .rightParen))
    return .cast e target
  | .identifier name => do
    match ← accept (Token.acceptToken? (.sign .leftParen)) with
    | some _ => call (arguments name)
    | none => leaf (Expr.readField name)
  | .quoted name => leaf (Expr.readField name)
  | t => fail (.inExpression t)

/-- The keys of groups behind the words that begin them, or none. -/
def bodyOfGroupBy (call : (r : Reader) → Attempt r.Answer) : Attempt (List Expr) := do
  if ← clause .group then call list else return []

/-- The keys by which a window is partitioned. -/
def bodyOfPartition (call : (r : Reader) → Attempt r.Answer) : Attempt (List Expr) := do
  match ← accept (Token.acceptWord? "partition") with
  | some _ =>
    leaf (Token.expect (.keyword .«by»))
    call list
  | none => return [Expr.one]

/-- The clauses of a query behind its source. -/
def bodyOfClauses (call : (r : Reader) → Attempt r.Answer) (quantifier : Option Quantifier)
    (items : List SelectItem) : Attempt Clauses := do
  let condition ← Attempt.optional .«where» (call (level .disjunction))
  let groupBy ← bodyOfGroupBy call
  let having ← Attempt.optional .having (call (level .disjunction))
  let orderBy ← call order
  let limit ← Attempt.optional .limit (leaf Statement.readLimit)
  return ⟨quantifier, items, condition, groupBy, having, orderBy, limit⟩

/-- What a reader does when its calls of readers are answered in the given way. -/
def body (call : (r : Reader) → Attempt r.Answer) : (r : Reader) → Attempt r.Answer
  | whole => do
    let s ← call statement
    let _ ← accept (Token.acceptToken? (.sign .semicolon))
    leaf (Statement.readEnd s)
  | statement => do
    leaf (Token.expect (.keyword .select))
    let quantifier ← leaf Expr.readQuantifier
    let items ← call selectItems
    let origin ← call source
    let clauses ← bodyOfClauses call quantifier items
    return .select origin clauses
  | selectItems => do
    let item ← call selectItem
    match ← accept (Token.acceptToken? (.sign .comma)) with
    | some _ =>
      let rest ← call selectItems
      return item :: rest
    | none => return [item]
  | selectItem => do
    match ← accept (Token.acceptToken? (.sign .star)) with
    | some _ => return .wildcard
    | none =>
      if Statement.startsTableWildcard (← get) then
        let table ← leaf Token.expectName
        leaf (Token.expect (.sign .dot))
        leaf (Token.expect (.sign .star))
        return .tableWildcard table
      else
        let e ← call windowed
        match ← leaf Statement.readAlias with
        | some name => return .expr (.aliased e name)
        | none => return .expr e
  | source => do
    match ← accept (Token.acceptToken? (.keyword .«from»)) with
    | none => return .nothing
    | some _ =>
      let f ← call factor
      call (joins (.factor f))
  | joins left => do
    if Statement.startsJoin (Token.front (← get)) then
      let joined ← call (join left)
      call (joins joined)
    else return left
  | join left => do
    leaf Statement.readJoinWords
    let right ← call factor
    leaf (Token.expect (.keyword .on))
    let on ← call (level .disjunction)
    return .leftJoin left right on
  | factor => do
    match ← accept (Token.acceptToken? (.sign .leftParen)) with
    | some _ =>
      let query ← call statement
      leaf (Token.expect (.sign .rightParen))
      match ← leaf Statement.readAlias with
      | some name => return .derived query name
      | none => fail .tableWithoutAlias
    | none =>
      let name ← leaf Token.expectName
      let renamed ← leaf Statement.readAlias
      return .table name renamed
  | windowed => do
    let e ← call (level .disjunction)
    match Expr.call? e with
    | some _ =>
      match ← accept (Token.acceptWord? "over") with
      | some _ => call (window e)
      | none => return e
    | none => return e
  | window function => do
    leaf (Token.expect (.sign .leftParen))
    let partition ← bodyOfPartition call
    let items ← call order
    let extent ← leaf Expr.readExtent
    leaf (Token.expect (.sign .rightParen))
    return .window function partition items extent
  | order => do
    if ← clause .order then call orderItems else return []
  | orderItems => do
    let e ← call windowed
    let d ← leaf Expr.readDirection
    match ← accept (Token.acceptToken? (.sign .comma)) with
    | some _ =>
      let rest ← call orderItems
      return .mk e d :: rest
    | none => return [.mk e d]
  | level l => bodyOfLevel call l
  | chain l operand left => do
    match ← accept (Token.accept? l.operator?) with
    | some op =>
      let right ← call (level operand)
      call (chain l operand (.binary op left right))
    | none => return left
  | comparison left => bodyOfComparison call left
  | indexes base => do
    match ← accept (Token.acceptToken? (.sign .leftBracket)) with
    | some _ =>
      let position ← call (level .disjunction)
      leaf (Token.expect (.sign .rightBracket))
      call (indexes (.index base position))
    | none => return base
  | primary => do
    match ← accept (Token.accept? some) with
    | none => fail (.inExpression .eof)
    | some t => bodyOfPrimary call t
  | arguments name => do
    match ← accept (Token.acceptToken? (.sign .star)) with
    | some _ =>
      leaf (Token.expect (.sign .rightParen))
      return .callStar name
    | none =>
      let q ← leaf Expr.readQuantifier
      let es ← call items
      return .call name q es
  | items => do
    match ← accept (Token.acceptToken? (.sign .rightParen)) with
    | some _ => return []
    | none =>
      let es ← call list
      leaf (Token.expect (.sign .rightParen))
      return es
  | list => do
    let e ← call (level .disjunction)
    match ← accept (Token.acceptToken? (.sign .comma)) with
    | some _ =>
      let rest ← call list
      return e :: rest
    | none => return [e]
  | branches first => do
    match ← accept (Token.acceptToken? (.keyword .when)) with
    | some _ =>
      let condition ← call (level .disjunction)
      leaf (Token.expect (.keyword .«then»))
      let result ← call (level .disjunction)
      let rest ← call (branches false)
      return .branch condition result rest
    | none =>
      if first then fail .caseWithoutBranch
      else
        match ← accept (Token.acceptToken? (.keyword .«else»)) with
        | some _ =>
          let e ← call (level .disjunction)
          leaf (Token.expect (.keyword .«end»))
          return .otherwise e
        | none =>
          leaf (Token.expect (.keyword .«end»))
          return .finish

/-- The calls that a reader may make while it reads the given tokens: of any reader on what is left when a
token has been taken, and of tighter ones on all of the tokens. -/
def MayCall (r : Reader) (ts : List Token) (r' : Reader) (rest : List Token) : Prop :=
  rest <:+ ts ∧ (rest.length < ts.length ∨ rest = ts ∧ r'.rank < r.rank)

instance (r : Reader) (ts : List Token) (r' : Reader) (rest : List Token) :
    Decidable (r.MayCall ts r' rest) :=
  inferInstanceAs (Decidable (_ ∧ _))

/-- A reader whose calls of readers are nested to the given depth at most. It comes to nothing when a call
would be deeper, or is one that may not be made. -/
def within : Nat → (r : Reader) → Attempt r.Answer
  | 0 => fun _ _ => none
  | n + 1 => fun r ts =>
    r.body (fun r' rest => if r.MayCall ts r' rest then within n r' rest else none) ts

end Reader

end TableQuery
