/-
Why a text is no query.
-/
import TableQuery.Token.Lexer

namespace TableQuery

/-- What had to come next. -/
inductive Wanted where
  | token (t : Token)
  /-- A word that has its meaning only here, in lower case. -/
  | word (w : String)
  | name
  | count
  deriving Repr, DecidableEq

/-- How messages refer to what had to come next. -/
def Wanted.describe : Wanted → String
  | token t => t.describe
  | word w => String.ofList (w.toList.map Char.toUpper)
  | name => "identifier"
  | count => "number"

/-- Why digits are no count. -/
inductive CountFault where
  | notADigit
  | tooLarge
  deriving Repr, DecidableEq

/-- The wording of a fault in a count. -/
def CountFault.message : CountFault → String
  | notADigit => "invalid digit found in string"
  | tooLarge => "number too large to fit in target type"

/-- Why a text is no query. -/
inductive ParseError where
  | lex (e : LexError)
  | expected (wanted : Wanted) (found : Token)
  | inExpression (found : Token)
  | afterStatement (found : Token)
  | notACount (digits : String) (fault : CountFault)
  | tableWithoutAlias
  | unsupportedJoin (found : Token)
  | queryInExpression
  | caseWithoutBranch
  | unknownType (name : String)
  deriving Repr, DecidableEq

/-- The wording of an error, with its causes behind it. -/
def ParseError.messages : ParseError → List String
  | lex e => [e.message]
  | expected wanted found => ["Expected " ++ wanted.describe ++ ", found " ++ found.describe]
  | inExpression found => ["Unexpected " ++ found.describe ++ " in expression"]
  | afterStatement found => ["Unexpected " ++ found.describe ++ " after statement"]
  | notACount digits fault => ["Expected a non-negative integer, found " ++ digits, fault.message]
  | tableWithoutAlias => ["Derived table requires an alias"]
  | unsupportedJoin found =>
    ["Unsupported join type at " ++ found.describe ++ ", only LEFT JOIN is supported"]
  | queryInExpression => ["Subqueries are only supported in FROM"]
  | caseWithoutBranch => ["CASE requires at least one WHEN branch"]
  | unknownType name => ["Unknown cast target type: " ++ name]

end TableQuery
