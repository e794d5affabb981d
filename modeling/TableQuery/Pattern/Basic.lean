/-
Matching of texts against LIKE and RLIKE patterns, and a cache of compiled patterns.

An RLIKE pattern is a regular expression that is searched for, and a LIKE pattern stands for one that
matches the whole text; either is refused if it takes too much. Null on either side gives Null. The
cache only ever holds what compiling the pattern again would give, so that it never changes an
answer.
-/
import TableQuery.Pattern.Like
import TableQuery.Regex.Reader
import TableQuery.Operator.Error

namespace TableQuery

/-- The two ways to match a text. -/
inductive PatternKind where
  | like
  | rlike
  deriving Repr, DecidableEq

namespace PatternKind

/-- The word for a way to match. -/
def keyword : PatternKind → String
  | like => "like"
  | rlike => "rlike"

/-- The text of the regular expression that a pattern stands for. -/
def source (kind : PatternKind) (pattern : String) : String :=
  match kind with
  | like => Like.source pattern
  | rlike => pattern

/-- The regular expression that a pattern stands for. -/
def compile (kind : PatternKind) (pattern : String) : Except OperationError Regex :=
  match Regex.read (kind.source pattern).toList with
  | .ok r => .ok r
  | .error e => .error (.invalidPattern pattern e.message)

/-- The two texts of a match, or what it is without them: Null when one side is Null, and an error
when one side is of another kind than text. -/
def operands (kind : PatternKind) (subject pattern : Value) :
    Except OperationError (Option (String × String)) :=
  match subject, pattern with
  | .null, _ => .ok none
  | _, .null => .ok none
  | .string s, .string p => .ok (some (s, p))
  | .string _, other => .error (.typeMismatch kind.keyword .string other.kindName)
  | other, _ => .error (.typeMismatch kind.keyword .string other.kindName)

/-- Whether the subject matches the pattern. -/
def apply (kind : PatternKind) (subject pattern : Value) : Except OperationError Value := do
  match ← kind.operands subject pattern with
  | none => return .null
  | some (s, p) => return .boolean ((← kind.compile p).search s.toList)

end PatternKind

/-- A pattern and what it compiles to. -/
structure CompiledPattern where
  kind : PatternKind
  pattern : String
  regex : Regex
  compiled : kind.compile pattern = .ok regex

/-- Patterns that have been compiled before. -/
structure PatternCache where
  entries : List CompiledPattern := []

namespace PatternCache

/-- The entry of a pattern. -/
def find? (cache : PatternCache) (kind : PatternKind) (pattern : String) : Option CompiledPattern :=
  cache.entries.find? fun e => e.kind == kind && e.pattern == pattern

/-- The regular expression of a pattern, from the cache if it is there. A pattern that does not
compile is not kept. -/
def compile (cache : PatternCache) (kind : PatternKind) (pattern : String) :
    Except OperationError (Regex × PatternCache) :=
  match cache.find? kind pattern with
  | some e => .ok (e.regex, cache)
  | none =>
    match h : kind.compile pattern with
    | .ok r => .ok (r, ⟨⟨kind, pattern, r, h⟩ :: cache.entries⟩)
    | .error e => .error e

/-- Whether the subject matches the pattern, and the cache afterwards. -/
def matches? (cache : PatternCache) (kind : PatternKind) (subject pattern : Value) :
    Except OperationError Value × PatternCache :=
  match kind.operands subject pattern with
  | .error e => (.error e, cache)
  | .ok none => (.ok .null, cache)
  | .ok (some (s, p)) =>
    match cache.compile kind p with
    | .error e => (.error e, cache)
    | .ok (r, cache) => (.ok (.boolean (r.search s.toList)), cache)

/-- A cache that holds the given pattern, if that compiles. -/
def holding (kind : PatternKind) (pattern : String) : PatternCache :=
  match compile {} kind pattern with
  | .ok (_, cache) => cache
  | .error _ => {}

end PatternCache

end TableQuery
