/-
The words and signs that queries are written in.
-/
import TableQuery.Text.Uppercase

namespace TableQuery

/-- Words that a query cannot use as names without quotes. -/
inductive Keyword where
  | select | «from» | «where» | and | or | not | null | order | «by» | asc | desc | limit | offset
  | join | left | outer | inner | right | full | cross | on | as | distinct | all | group | having
  | «in» | like | rlike | is | «true» | «false» | case | when | «then» | «else» | «end» | cast
  deriving Repr, DecidableEq

namespace Keyword

/-- All keywords. -/
def every : List Keyword :=
  [select, «from», «where», and, or, not, null, order, «by», asc, desc, limit, offset, join, left,
    outer, inner, right, full, cross, on, as, distinct, all, group, having, «in», like, rlike, is,
    «true», «false», case, when, «then», «else», «end», cast]

/-- A keyword with a capital at its start. -/
def name : Keyword → String
  | select => "Select"
  | «from» => "From"
  | «where» => "Where"
  | and => "And"
  | or => "Or"
  | not => "Not"
  | null => "Null"
  | order => "Order"
  | «by» => "By"
  | asc => "Asc"
  | desc => "Desc"
  | limit => "Limit"
  | offset => "Offset"
  | join => "Join"
  | left => "Left"
  | outer => "Outer"
  | inner => "Inner"
  | right => "Right"
  | full => "Full"
  | cross => "Cross"
  | on => "On"
  | as => "As"
  | distinct => "Distinct"
  | all => "All"
  | group => "Group"
  | having => "Having"
  | «in» => "In"
  | like => "Like"
  | rlike => "Rlike"
  | is => "Is"
  | «true» => "True"
  | «false» => "False"
  | case => "Case"
  | when => "When"
  | «then» => "Then"
  | «else» => "Else"
  | «end» => "End"
  | cast => "Cast"

/-- A keyword in capitals. -/
def capitals (k : Keyword) : List Char := k.name.toList.map Char.toUpper

/-- The keyword that a word is in any letter case. -/
def ofWord? (word : List Char) : Option Keyword :=
  match Text.asciiUppercase? word with
  | some upper => every.find? fun k => k.capitals == upper
  | none => none

end Keyword

/-- Operators and delimiters. -/
inductive Sign where
  | plus | minus | star | slash | percent
  | equal | notEqual | less | greater | lessEqual | greaterEqual
  | leftParen | rightParen | leftBracket | rightBracket | comma | semicolon | dot
  deriving Repr, DecidableEq

/-- What a sign is called. -/
def Sign.name : Sign → String
  | plus => "Plus"
  | minus => "Minus"
  | star => "Star"
  | slash => "Slash"
  | percent => "Percent"
  | equal => "Equal"
  | notEqual => "NotEqual"
  | less => "Less"
  | greater => "Greater"
  | lessEqual => "LessEqual"
  | greaterEqual => "GreaterEqual"
  | leftParen => "LeftParen"
  | rightParen => "RightParen"
  | leftBracket => "LeftBracket"
  | rightBracket => "RightBracket"
  | comma => "Comma"
  | semicolon => "Semicolon"
  | dot => "Dot"

/-- A word or sign of a query. -/
inductive Token where
  /-- A name written as it is. -/
  | identifier (name : String)
  /-- A name written between quotes. -/
  | quoted (name : String)
  | number (digits : String)
  | string (text : String)
  | keyword (k : Keyword)
  | sign (s : Sign)
  /-- A character that no query has a use for. -/
  | unknown (c : Char)
  | eof
  deriving Repr, DecidableEq

namespace Token

/-- The token is a keyword. -/
def isKeyword : Token → Bool
  | keyword _ => true
  | _ => false

/-- How messages refer to a token. -/
def describe : Token → String
  | identifier name => s!"identifier '{name}'"
  | quoted name => s!"identifier '{name}'"
  | number digits => s!"number {digits}"
  | string text => s!"string '{text}'"
  | keyword k => k.name
  | sign s => s.name
  | unknown c => "character '" ++ String.ofList [c] ++ "'"
  | eof => "end of input"

/-- The token is the given word in any letter case, and no keyword. -/
def isWord (t : Token) (word : String) : Bool :=
  match t with
  | identifier name => name.toList.map Char.toLower == word.toList
  | _ => false

end Token

end TableQuery
