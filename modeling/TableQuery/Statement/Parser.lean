/-
Queries read from text.

`Statement.parse` accepts exactly one query, with an optional semicolon behind it.
-/
import TableQuery.Statement.Basic
import TableQuery.Expr.Window

namespace TableQuery

namespace Statement

/-- The names of fields and tables do not start with a star, so a name, a point and a star are all
columns of a table. The name is checked when it is taken. -/
def startsTableWildcard : List Token → Bool
  | _ :: .sign .dot :: .sign .star :: _ => true
  | _ => false

/-- Takes an alias: a name, with or without `as` in front of it. -/
def readAlias (ts : List Token) : Parse (Option String) 0 ts :=
  match Token.acceptToken? (.keyword .as) ts with
  | some ⟨_, rest, suffix, taken⟩ => .behind suffix taken ((Token.expectName rest).map some)
  | none =>
    match Token.accept? Token.name? ts with
    | some ⟨name, _, suffix, taken⟩ => .behind suffix taken (.done (some name))
    | none => .done none

/-- Reads what is selected between commas. -/
def readItem (ts : List Token) : Parse SelectItem 1 ts :=
  match Token.acceptToken? (.sign .star) ts with
  | some ⟨_, _, suffix, taken⟩ => .behind suffix taken (.done .wildcard)
  | none =>
    if startsTableWildcard ts then
      (Token.expectName ts).andThen fun table rest _ =>
        (Token.expect (.sign .dot) rest).andThen fun _ rest _ =>
        (Token.expect (.sign .star) rest).map fun _ => .tableWildcard table
    else
      (Expr.readWindowed ts).andThen fun e rest _ =>
        (readAlias rest).map fun
          | some name => .expr (.aliased e name)
          | none => .expr e

/-- Reads the list of what is selected. -/
def readItems (ts : List Token) : Parse (List SelectItem) 1 ts :=
  (readItem ts).andThen fun item rest _ =>
    match Token.acceptToken? (.sign .comma) rest with
    | some ⟨_, rest, suffix, taken⟩ => Parse.behind suffix taken ((readItems rest).map (item :: ·))
    | none => .done [item]
termination_by ts.length
decreasing_by omega

/-- Reads how many rows to skip and to keep. -/
def readLimit (ts : List Token) : Parse Limit 1 ts :=
  (Token.expectCount ts).andThen fun n rest _ =>
    match Token.acceptToken? (.sign .comma) rest with
    | some ⟨_, rest, suffix, taken⟩ =>
      .behind suffix taken ((Token.expectCount rest).map fun count => ⟨n, some count⟩)
    | none =>
      match Token.acceptToken? (.keyword .offset) rest with
      | some ⟨_, rest, suffix, taken⟩ =>
        .behind suffix taken ((Token.expectCount rest).map fun offset => ⟨offset, some n⟩)
      | none => .done ⟨0, some n⟩

/-- Reads the keys of groups behind the words that begin them, or nothing. -/
def readGroupBy (ts : List Token) : Parse (List Expr) 0 ts :=
  match Expr.acceptClause? .group ts with
  | none => .done []
  | some (.error e) => .error e
  | some (.ok ⟨_, rest, suffix, taken⟩) => .behind suffix taken (Expr.readList rest)

/-- Reads the clauses behind the source of a query. -/
def readClauses (quantifier : Option Quantifier) (items : List SelectItem) (ts : List Token) :
    Parse Clauses 0 ts :=
  (Token.optional .«where» (Expr.read .disjunction) ts).andThen fun condition rest _ =>
    (readGroupBy rest).andThen fun groupBy rest _ =>
    (Token.optional .having (Expr.read .disjunction) rest).andThen fun having rest _ =>
    (Expr.readOrder rest).andThen fun orderBy rest _ =>
    (Token.optional .limit readLimit rest).map fun limit =>
      ⟨quantifier, items, condition, groupBy, having, orderBy, limit⟩

/-- The token begins a join of some kind. -/
def startsJoin : Token → Bool
  | .keyword .join => true
  | .keyword .inner => true
  | .keyword .left => true
  | .keyword .right => true
  | .keyword .full => true
  | .keyword .cross => true
  | _ => false

/-- Takes the words that begin a left join. -/
def readJoinWords (ts : List Token) : Parse Unit 1 ts :=
  match Token.acceptToken? (.keyword .left) ts with
  | none => .error (.unsupportedJoin (Token.front ts))
  | some ⟨_, rest, suffix, taken⟩ =>
    .behind suffix taken (match Token.acceptToken? (.keyword .outer) rest with
      | some ⟨_, rest, suffix, taken⟩ => .behind suffix taken (Token.expect (.keyword .join) rest)
      | none => Token.expect (.keyword .join) rest)

mutual

/-- Reads a query. -/
def read (ts : List Token) : Parse Statement 1 ts :=
  (Token.expect (.keyword .select) ts).andThen fun _ rest _ =>
    (Expr.readQuantifier rest).andThen fun quantifier rest _ =>
    (readItems rest).andThen fun items rest _ =>
    (readSource rest).andThen fun source rest _ =>
    (readClauses quantifier items rest).map (.select source)
termination_by 4 * ts.length
decreasing_by all_goals omega

/-- Reads where a query takes its rows from. -/
def readSource (ts : List Token) : Parse Source 0 ts :=
  match Token.acceptToken? (.keyword .«from») ts with
  | none => .done .nothing
  | some ⟨_, rest, suffix, taken⟩ =>
    .behind suffix taken ((readFactor rest).andThen fun f rest _ => readJoins (.factor f) rest)
termination_by 4 * ts.length + 2
decreasing_by all_goals omega

/-- Reads any number of joins. -/
def readJoins (left : Source) (ts : List Token) : Parse Source 0 ts :=
  if startsJoin (Token.front ts) then
    ((readJoinWords ts).andThen fun _ rest _ =>
      (readFactor rest).andThen fun right rest _ =>
      (Token.expect (.keyword .on) rest).andThen fun _ rest _ =>
      (Expr.read .disjunction rest).andThen fun on rest _ =>
      readJoins (.leftJoin left right on) rest).weaken
  else .done left
termination_by 4 * ts.length + 1
decreasing_by all_goals omega

/-- Reads a table or a query between parentheses. -/
def readFactor (ts : List Token) : Parse Factor 1 ts :=
  match Token.acceptToken? (.sign .leftParen) ts with
  | some ⟨_, rest, suffix, taken⟩ =>
    .behind suffix taken ((read rest).andThen fun query rest _ =>
      (Token.expect (.sign .rightParen) rest).andThen fun _ rest _ =>
      (readAlias rest).andThen fun renamed _ _ =>
        match renamed with
        | some name => .done (.derived query name)
        | none => .error .tableWithoutAlias)
  | none => (Token.expectName ts).andThen fun name rest _ => (readAlias rest).map (.table name)
termination_by 4 * ts.length
decreasing_by all_goals omega

end

/-- The one query that tokens are. -/
def ofTokens (ts : List Token) : Except ParseError Statement :=
  match read ts with
  | .error e => .error e
  | .ok ⟨s, rest, _, _⟩ =>
    let rest := match Token.acceptToken? (.sign .semicolon) rest with
      | some r => r.rest
      | none => rest
    if Token.front rest = .eof then .ok s else .error (.afterStatement (Token.front rest))

/-- The one query that a text is. -/
def parse (text : String) : Except ParseError Statement :=
  match Token.scan text with
  | .error e => .error (.lex e)
  | .ok ts => ofTokens ts

end Statement

end TableQuery
