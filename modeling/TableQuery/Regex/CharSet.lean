/-
Sets of characters as a regular expression describes them.

`CharSet.ranges` gives the characters of a set and `CharSet.depth` how deep its brackets and
operators are nested.
-/
import TableQuery.Text.Blank
import TableQuery.Text.CaseFold
import TableQuery.Text.Word

namespace TableQuery

/-- The sets that an escape names. -/
inductive NamedSet where
  | digit
  | blank
  | word
  deriving Repr, DecidableEq

/-- The characters of a named set. -/
def NamedSet.ranges : NamedSet → Text.Ranges
  | digit => Text.digitRanges
  | blank => Text.blankRanges
  | word => Text.wordRanges

/-- How two sets between brackets are combined. -/
inductive SetOperator where
  | intersection
  | difference
  | symmetricDifference
  deriving Repr, DecidableEq

/-- The combination of two sets. -/
def SetOperator.apply : SetOperator → Text.Ranges → Text.Ranges → Text.Ranges
  | intersection, a, b => a.inter b
  | difference, a, b => a.diff b
  | symmetricDifference, a, b => (a.union b).diff (a.inter b)

/-- A set of characters as a regular expression describes it. -/
inductive CharSet where
  | range (first last : Char)
  | named (set : NamedSet) (negated : Bool)
  /-- A set of ranges that has a name between brackets and colons. -/
  | posix (ranges : Text.Ranges) (negated : Bool)
  | union (items : List CharSet)
  | combined (op : SetOperator) (a b : CharSet)
  /-- A set between brackets. -/
  | bracket (negated : Bool) (inner : CharSet)

namespace CharSet

/-- The set of one character. -/
def single (c : Char) : CharSet := range c c

/-- The union of items, which is the item itself when there is one. -/
def ofItems : List CharSet → CharSet
  | [s] => s
  | items => union items

/-- The characters of a set, and their case variants if case is ignored. -/
def upToCase (ignoreCase : Bool) (ranges : Text.Ranges) : Text.Ranges :=
  if ignoreCase then Text.caseClosure ranges else ranges

/-- The characters of a set, or all others. -/
def negatedIf (negated : Bool) (ranges : Text.Ranges) : Text.Ranges :=
  if negated then ranges.complement else ranges

mutual

/-- The characters of a set. Letter case is settled before a set is negated or combined, and makes
no difference to a set that an escape names. -/
def ranges (ignoreCase : Bool) : CharSet → Text.Ranges
  | range first last => [(first.toNat, last.toNat)]
  | named set negated => negatedIf negated set.ranges
  | posix rs negated => negatedIf negated (upToCase ignoreCase (.ofList rs))
  | union items => .ofList (rangesAll ignoreCase items)
  | combined op a b =>
    op.apply (upToCase ignoreCase (a.ranges ignoreCase)) (upToCase ignoreCase (b.ranges ignoreCase))
  | bracket negated inner => negatedIf negated (upToCase ignoreCase (inner.ranges ignoreCase))

/-- The ranges of several sets, one after the other. -/
def rangesAll (ignoreCase : Bool) : List CharSet → List (Nat × Nat)
  | [] => []
  | s :: items => s.ranges ignoreCase ++ rangesAll ignoreCase items

end

mutual

/-- How deep brackets, operators and unions of several items are nested. -/
def depth : CharSet → Nat
  | range .. => 0
  | named .. => 0
  | posix .. => 0
  | union items => match items with
    | [] => 0
    | _ :: _ => depthAll items + 1
  | combined _ a b => max a.depth b.depth + 1
  | bracket _ inner => inner.depth + 1

/-- The greatest depth of several sets. -/
def depthAll : List CharSet → Nat
  | [] => 0
  | s :: items => max s.depth (depthAll items)

end

end CharSet

end TableQuery
