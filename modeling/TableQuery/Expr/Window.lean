/-
Windows and lists to sort by, read from tokens.

A call may be followed by `over` and a window between parentheses. The words of a window other than
keywords are ordinary names elsewhere.
-/
import TableQuery.Expr.Parser

namespace TableQuery.Expr

/-- Takes a keyword that begins a clause and the word `by` behind it. -/
def acceptClause? (k : Keyword) (ts : List Token) : Option (Parse Unit 1 ts) :=
  match Token.acceptToken? (.keyword k) ts with
  | some ⟨_, rest, suffix, taken⟩ =>
    some (.behind suffix taken (Token.expect (.keyword .«by») rest))
  | none => none

/-- The direction that a token is. -/
def direction? : Token → Option Direction
  | .keyword .asc => some .ascending
  | .keyword .desc => some .descending
  | _ => none

/-- Takes a direction; without one sorting is ascending. -/
def readDirection (ts : List Token) : Parse Direction 0 ts :=
  match Token.accept? direction? ts with
  | some ⟨d, _, suffix, taken⟩ => .behind suffix taken (.done d)
  | none => .done .ascending

/-- Reads one end of the range of a window. -/
def readBound (ts : List Token) : Parse Bound 1 ts :=
  match Token.acceptWord? "unbounded" ts with
  | some ⟨_, rest, suffix, taken⟩ =>
    .behind suffix taken (match Token.acceptWord? "preceding" rest with
      | some r => .ok (r.map fun _ => .unboundedPreceding)
      | none => (Token.expectWord "following" rest).map fun _ => .unboundedFollowing)
  | none =>
    match Token.acceptWord? "current" ts with
    | some ⟨_, rest, suffix, taken⟩ =>
      .behind suffix taken ((Token.expectWord "row" rest).map fun _ => .currentRow)
    | none =>
      (Token.expectCount ts).andThen fun n rest _ =>
        match Token.acceptWord? "preceding" rest with
        | some r => .ok (r.map fun _ => .preceding n)
        | none => (Token.expectWord "following" rest).map fun _ => .following n

/-- Reads the range of a window; without one it is the whole partition. -/
def readExtent (ts : List Token) : Parse Extent 0 ts :=
  match Token.acceptWord? "rows" ts with
  | some ⟨_, rest, suffix, taken⟩ =>
    .behind suffix taken ((Token.expectWord "between" rest).andThen fun _ rest _ =>
      (readBound rest).andThen fun first rest _ =>
      (Token.expect (.keyword .and) rest).andThen fun _ rest _ =>
      (readBound rest).map fun last => ⟨first, last⟩)
  | none => .done .whole

/-- Reads the keys by which a window is partitioned; without any it is the partition of all rows. -/
def readPartition (ts : List Token) : Parse (List Expr) 0 ts :=
  match Token.acceptWord? "partition" ts with
  | some ⟨_, rest, suffix, taken⟩ =>
    .behind suffix taken
      ((Token.expect (.keyword .«by») rest).andThen fun _ rest _ => readList rest)
  | none => .done [one]

mutual

/-- Reads an expression that may be a call over a window. -/
def readWindowed (ts : List Token) : Parse Expr 1 ts :=
  (read .disjunction ts).andThen fun e rest _ =>
    match e.call?, Token.acceptWord? "over" rest with
    | some _, some ⟨_, rest', suffix, taken⟩ => Parse.behind suffix taken (readWindow e rest')
    | _, _ => .done e
termination_by 4 * ts.length
decreasing_by all_goals omega

/-- Reads a window between parentheses. -/
def readWindow (function : Expr) (ts : List Token) : Parse Expr 1 ts :=
  (Token.expect (.sign .leftParen) ts).andThen fun _ rest _ =>
    (readPartition rest).andThen fun partition rest _ =>
    (readOrder rest).andThen fun order rest _ =>
    (readExtent rest).andThen fun extent rest _ =>
    (Token.expect (.sign .rightParen) rest).map fun _ =>
      window function partition order extent
termination_by 4 * ts.length
decreasing_by all_goals omega

/-- Reads the items to sort by behind the words that begin them, or nothing. -/
def readOrder (ts : List Token) : Parse (List OrderItem) 0 ts :=
  match acceptClause? .order ts with
  | none => .done []
  | some (.error e) => .error e
  | some (.ok ⟨_, rest, suffix, taken⟩) => .behind suffix taken (readOrderItems rest)
termination_by 4 * ts.length + 2
decreasing_by all_goals omega

/-- Reads items to sort by between commas. -/
def readOrderItems (ts : List Token) : Parse (List OrderItem) 1 ts :=
  (readWindowed ts).andThen fun e rest _ =>
    (readDirection rest).andThen fun d rest _ =>
    match Token.acceptToken? (.sign .comma) rest with
    | some ⟨_, rest, suffix, taken⟩ =>
      Parse.behind suffix taken ((readOrderItems rest).map (.mk e d :: ·))
    | none => .done [.mk e d]
termination_by 4 * ts.length + 1
decreasing_by all_goals omega

end

end TableQuery.Expr
