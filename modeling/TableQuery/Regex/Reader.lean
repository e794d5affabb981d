/-
Regular expressions read from text.

The pieces of the text are put together from left to right over a stack of the groups that are
still open. Flags set inside a group last until it closes. Texts that nest too deep and regular
expressions that take too much are refused.
-/
import TableQuery.Regex.Piece
import TableQuery.Regex.Size

namespace TableQuery.Regex

/-- A regular expression that has been read, and how deep groups, repetitions, rows of items,
choices and brackets are nested in its text. -/
structure ReadPart where
  regex : Regex
  depth : Nat := 0

/-- How deep groups, repetitions, rows of items, choices and brackets may be nested. -/
def depthLimit : Nat := 250

/-- The greatest depth of several parts, and one more if there are several. -/
def depthOf (depths : List Nat) : Nat :=
  match depths with
  | [] => 0
  | [depth] => depth
  | depths => depths.foldl max 0 + 1

/-- Parts one after the other. A change of flags, which is none of them, counts as a part at no
depth. -/
def ReadPart.row (items : List (Option ReadPart)) : ReadPart :=
  ⟨concat (items.filterMap (·.map regex)), depthOf (items.map fun p => (p.map depth).getD 0)⟩

/-- One of several parts. -/
def ReadPart.either (parts : List ReadPart) : ReadPart :=
  ⟨choose (parts.map regex), depthOf (parts.map depth)⟩

/-- A group that is still open: whether its place can be told, the flags that held outside it, its
finished alternatives and the items of the current one, both last first. A change of flags is an
item that is absent. -/
structure OpenGroup where
  captures : Bool
  outside : Flags
  alternatives : List ReadPart
  items : List (Option ReadPart)

/-- The items of the current alternative, one after the other. -/
def OpenGroup.current (g : OpenGroup) : ReadPart := .row g.items.reverse

/-- What stands in the group. -/
def OpenGroup.inner (g : OpenGroup) : ReadPart := .either (g.current :: g.alternatives).reverse

/-- The whole group. -/
def OpenGroup.close (g : OpenGroup) : ReadPart :=
  ⟨if g.captures then group g.inner.regex else g.inner.regex, g.inner.depth + 1⟩

/-- Adds an item to the current alternative. -/
def OpenGroup.push (g : OpenGroup) (p : ReadPart) : OpenGroup :=
  { g with items := some p :: g.items }

/-- The state while pieces are put together. -/
structure Assembly where
  flags : Flags
  innermost : OpenGroup
  outer : List OpenGroup
  names : List String

/-- Adds an item to the innermost group. -/
def Assembly.push (s : Assembly) (r : Regex) (depth : Nat := 0) : Assembly :=
  { s with innermost := s.innermost.push ⟨r, depth⟩ }

/-- Any character, or any but a line feed. -/
def dot (dotNewline : Bool) : Regex :=
  set (Text.Ranges.complement (if dotNewline then [] else [(0x0a, 0x0a)]))

/-- Takes in one piece. -/
def Assembly.add (s : Assembly) (p : Piece) : Except PatternError Assembly :=
  match p with
  | .literal c => .ok (s.push (ofChars (CharSet.upToCase s.flags.ignoreCase [(c.toNat, c.toNat)])))
  | .set chars => .ok (s.push (ofChars (chars.ranges s.flags.ignoreCase)) chars.depth)
  | .dot => .ok (s.push (dot s.flags.dotNewline))
  | .caret => .ok (s.push (.assertion (if s.flags.multiLine then .lineStart else .textStart)))
  | .dollar => .ok (s.push (.assertion (if s.flags.multiLine then .lineEnd else .textEnd)))
  | .assertion a => .ok (s.push (.assertion a))
  | .repetition least most lazily =>
    match s.innermost.items with
    | some p :: items =>
      let items := some ⟨times p.regex least most lazily, p.depth + 1⟩ :: items
      .ok { s with innermost := { s.innermost with items := items } }
    | _ => .error .repetitionOfNothing
  | .bar =>
    let g := s.innermost
    .ok { s with innermost := { g with alternatives := g.current :: g.alternatives, items := [] } }
  | .openGroup captures name change =>
    if name.any s.names.contains then .error .repeatedGroupName
    else
      .ok ⟨change.apply s.flags, ⟨captures, s.flags, [], []⟩, s.innermost :: s.outer,
        name.toList ++ s.names⟩
  | .closeGroup =>
    match s.outer with
    | [] => .error .unopenedGroup
    | parent :: outer =>
      .ok { s with
        flags := s.innermost.outside
        innermost := parent.push s.innermost.close
        outer := outer }
  | .setFlags change =>
    .ok { s with
      flags := change.apply s.flags
      innermost := { s.innermost with items := none :: s.innermost.items } }

/-- Puts pieces together. -/
def assemble (pieces : List Piece) : Except PatternError ReadPart := do
  let s ← pieces.foldlM Assembly.add ⟨{}, ⟨false, {}, [], []⟩, [], []⟩
  if s.outer.isEmpty then return s.innermost.inner else .error .unclosedGroup

/-- The regular expression that a text describes. -/
def read (text : List Char) : Except PatternError Regex := do
  let p ← assemble (← Piece.scan text)
  if depthLimit < p.depth then .error .tooDeep
  else if p.regex.fits then return p.regex
  else .error .tooLarge

end TableQuery.Regex
