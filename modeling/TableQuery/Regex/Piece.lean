/-
The pieces that the text of a regular expression consists of.

`Piece.scan` cuts a text into single characters, sets between brackets, escapes, assertions,
repetitions and the marks of groups and alternatives. How the pieces nest is settled afterwards.
-/
import TableQuery.Regex.Basic
import TableQuery.Regex.CharSet

namespace TableQuery.Regex

/-- Why a text is no regular expression. -/
inductive PatternError where
  | danglingEscape
  | unknownEscape
  | invalidCodePoint
  | unclosedBracket
  | invalidRange
  | repetitionOfNothing
  | invalidCount
  | unclosedGroup
  | unopenedGroup
  | lookAround
  | invalidGroupName
  | repeatedGroupName
  | invalidFlag
  | tooDeep
  | tooLarge
  deriving Repr, DecidableEq

/-- The wording of a fault in a pattern. -/
def PatternError.message : PatternError → String
  | danglingEscape => "a backslash ends the pattern"
  | unknownEscape => "unrecognized escape sequence"
  | invalidCodePoint => "no such character"
  | unclosedBracket => "unclosed character class"
  | invalidRange => "invalid character class range"
  | repetitionOfNothing => "repetition operator missing expression"
  | invalidCount => "invalid repetition count"
  | unclosedGroup => "unclosed group"
  | unopenedGroup => "unopened group"
  | lookAround => "look-around is not supported"
  | invalidGroupName => "invalid group name"
  | repeatedGroupName => "duplicate group name"
  | invalidFlag => "invalid flag"
  | tooDeep => "too many nested parts"
  | tooLarge => "pattern too large"

/-- The flags that change how the pieces after them are read. -/
structure Flags where
  ignoreCase : Bool := false
  multiLine : Bool := false
  dotNewline : Bool := false
  deriving Repr, DecidableEq

/-- A change of flags; what is not mentioned stays. -/
structure FlagChange where
  ignoreCase : Option Bool := none
  multiLine : Option Bool := none
  dotNewline : Option Bool := none
  deriving Repr, DecidableEq

/-- The flags after a change. -/
def FlagChange.apply (change : FlagChange) (flags : Flags) : Flags :=
  ⟨change.ignoreCase.getD flags.ignoreCase, change.multiLine.getD flags.multiLine,
    change.dotNewline.getD flags.dotNewline⟩

/-- A piece of the text of a regular expression. -/
inductive Piece where
  | literal (c : Char)
  | set (s : CharSet)
  | dot
  | caret
  | dollar
  | assertion (a : Assertion)
  /-- How often what precedes is repeated. -/
  | repetition (least : Nat) (most : Option Nat) (lazily : Bool)
  | bar
  /-- The start of a group; `captures` tells that its place in the text can be told. -/
  | openGroup (captures : Bool) (name : Option String) (change : FlagChange)
  | closeGroup
  | setFlags (change : FlagChange)

/-- Something read from the front of a text, and what is left of the text. -/
abbrev Reading (α : Type) := α × List Char

/-! ### Escapes -/

/-- The value of a hexadecimal digit. -/
def hexValue? (c : Char) : Option Nat :=
  if c.isDigit then some (c.toNat - '0'.toNat)
  else if 'a' ≤ c && c ≤ 'f' then some (c.toNat - 'a'.toNat + 10)
  else if 'A' ≤ c && c ≤ 'F' then some (c.toNat - 'A'.toNat + 10)
  else none

/-- The character whose code point is written in hexadecimal digits. -/
def charOfHex (digits : List Char) : Except PatternError Char :=
  match digits.mapM hexValue? with
  | none => .error .invalidCodePoint
  | some values =>
    let n := values.foldl (fun n d => 16 * n + d) 0
    if digits.isEmpty || 6 < (values.dropWhile (· == 0)).length then .error .invalidCodePoint
    else if n.isValidChar then .ok (Char.ofNat n) else .error .invalidCodePoint

/-- Reads the code point of a hexadecimal escape: `width` digits, or any number between braces. -/
def readHex (width : Nat) (text : List Char) : Except PatternError (Reading Char) :=
  match text with
  | '{' :: rest =>
    match rest.dropWhile (· != '}') with
    | [] => .error .invalidCodePoint
    | _ :: after => return (← charOfHex (rest.takeWhile (· != '}')), after)
  | _ =>
    if (text.take width).length < width then .error .invalidCodePoint
    else return (← charOfHex (text.take width), text.drop width)

/-- What an escape stands for. -/
inductive Escape where
  | char (c : Char)
  | set (s : CharSet)
  | assertion (a : Assertion)

/-- Reads what follows a backslash. Digits would refer back to a group, which is not supported. -/
def readEscape : List Char → Except PatternError (Reading Escape)
  | [] => .error .danglingEscape
  | c :: rest =>
    match c with
    | 'd' => .ok (.set (.named .digit false), rest)
    | 'D' => .ok (.set (.named .digit true), rest)
    | 's' => .ok (.set (.named .blank false), rest)
    | 'S' => .ok (.set (.named .blank true), rest)
    | 'w' => .ok (.set (.named .word false), rest)
    | 'W' => .ok (.set (.named .word true), rest)
    | 'x' => return (.char (← readHex 2 rest).1, (← readHex 2 rest).2)
    | 'u' => return (.char (← readHex 4 rest).1, (← readHex 4 rest).2)
    | 'U' => return (.char (← readHex 8 rest).1, (← readHex 8 rest).2)
    | 'a' => .ok (.char '\x07', rest)
    | 'f' => .ok (.char '\x0c', rest)
    | 't' => .ok (.char '\t', rest)
    | 'n' => .ok (.char '\n', rest)
    | 'r' => .ok (.char '\r', rest)
    | 'v' => .ok (.char '\x0b', rest)
    | 'A' => .ok (.assertion .textStart, rest)
    | 'z' => .ok (.assertion .textEnd, rest)
    | 'b' => .ok (.assertion .wordBoundary, rest)
    | 'B' => .ok (.assertion .noWordBoundary, rest)
    | '<' => .ok (.assertion .wordStart, rest)
    | '>' => .ok (.assertion .wordEnd, rest)
    | _ =>
      if c.toNat < 128 && !c.isAlphanum then .ok (.char c, rest) else .error .unknownEscape

/-! ### Sets between brackets -/

/-- The sets that have a name between brackets and colons. -/
def classRanges? : String → Option Text.Ranges
  | "alnum" => some [(0x30, 0x39), (0x41, 0x5a), (0x61, 0x7a)]
  | "alpha" => some [(0x41, 0x5a), (0x61, 0x7a)]
  | "ascii" => some [(0x00, 0x7f)]
  | "blank" => some [(0x09, 0x09), (0x20, 0x20)]
  | "cntrl" => some [(0x00, 0x1f), (0x7f, 0x7f)]
  | "digit" => some [(0x30, 0x39)]
  | "graph" => some [(0x21, 0x7e)]
  | "lower" => some [(0x61, 0x7a)]
  | "print" => some [(0x20, 0x7e)]
  | "punct" => some [(0x21, 0x2f), (0x3a, 0x40), (0x5b, 0x60), (0x7b, 0x7e)]
  | "space" => some [(0x09, 0x0d), (0x20, 0x20)]
  | "upper" => some [(0x41, 0x5a)]
  | "word" => some [(0x30, 0x39), (0x41, 0x5a), (0x5f, 0x5f), (0x61, 0x7a)]
  | "xdigit" => some [(0x30, 0x39), (0x41, 0x46), (0x61, 0x66)]
  | _ => none

/-- Reads `[:name:]` or `[:^name:]` behind the first bracket. -/
def readClass? (text : List Char) : Option (CharSet × List Char) :=
  match text with
  | ':' :: rest =>
    let (negated, rest) := match rest with
      | '^' :: rest => (true, rest)
      | _ => (false, rest)
    match rest.dropWhile (· != ':') with
    | ':' :: ']' :: after =>
      (classRanges? (String.ofList (rest.takeWhile (· != ':')))).map fun rs =>
        (.posix rs negated, after)
    | _ => none
  | _ => none

/-- A bracket that is still open: whether it is negated, the left side of an operator, and the
items since then, last first. -/
structure OpenBracket where
  negated : Bool
  left : Option (SetOperator × CharSet)
  items : List CharSet

/-- The set gathered so far, the left side of an operator included. -/
def OpenBracket.gathered (b : OpenBracket) : CharSet :=
  let right := CharSet.ofItems b.items.reverse
  match b.left with
  | some (op, left) => .combined op left right
  | none => right

/-- Adds an item. -/
def OpenBracket.add (b : OpenBracket) (s : CharSet) : OpenBracket :=
  { b with items := s :: b.items }

/-- Begins the right side of an operator. -/
def OpenBracket.operate (b : OpenBracket) (op : SetOperator) : OpenBracket :=
  { b with left := some (op, b.gathered), items := [] }

/-- Reads the start of a bracket: a caret negates it, and hyphens, or else one closing bracket,
stand for themselves when they come first. -/
def openBracket (text : List Char) : OpenBracket × List Char :=
  let (negated, text) := match text with
    | '^' :: rest => (true, rest)
    | _ => (false, text)
  let hyphens := text.takeWhile (· == '-')
  let rest := text.dropWhile (· == '-')
  if hyphens.isEmpty then
    match rest with
    | ']' :: rest => (⟨negated, none, [.single ']']⟩, rest)
    | _ => (⟨negated, none, []⟩, rest)
  else (⟨negated, none, hyphens.map .single⟩, rest)

/-- One end of a range, or a set that an escape names. -/
def readItem (text : List Char) : Except PatternError (Reading (Char ⊕ CharSet)) :=
  match text with
  | [] => .error .unclosedBracket
  | '\\' :: rest => do
    match ← readEscape rest with
    | (.char c, after) => return (.inl c, after)
    | (.set s, after) => return (.inr s, after)
    | (.assertion _, _) => .error .unknownEscape
  | c :: rest => .ok (.inl c, rest)

/-- The set of a single item. -/
def itemSet : Char ⊕ CharSet → CharSet
  | .inl c => .single c
  | .inr s => s

/-- Reads an item between brackets, a range included. A hyphen makes a range unless another hyphen
or the closing bracket follows it. -/
def readRange (text : List Char) : Except PatternError (Reading CharSet) := do
  let (item, rest) ← readItem text
  match rest with
  | [] => .error .unclosedBracket
  | ['-'] => .error .unclosedBracket
  | '-' :: c :: more =>
    if c == ']' || c == '-' then return (itemSet item, rest)
    else match item, ← readItem (c :: more) with
      | .inl first, (.inl last, after) =>
        if first ≤ last then return (.range first last, after) else .error .invalidRange
      | _, _ => .error .invalidRange
  | _ => return (itemSet item, rest)

/-- Reads the rest of nested brackets, the innermost first, each step taking at least one character
of a text no longer than `fuel`. -/
def readBrackets :
    Nat → OpenBracket → List OpenBracket → List Char → Except PatternError (Reading CharSet)
  | 0, _, _, _ => .error .unclosedBracket
  | _ + 1, _, _, [] => .error .unclosedBracket
  | fuel + 1, b, outer, '[' :: rest =>
    match readClass? rest with
    | some (s, after) => readBrackets fuel (b.add s) outer after
    | none => readBrackets fuel (openBracket rest).1 (b :: outer) (openBracket rest).2
  | fuel + 1, b, outer, ']' :: rest =>
    let closed := CharSet.bracket b.negated b.gathered
    match outer with
    | [] => .ok (closed, rest)
    | parent :: outer => readBrackets fuel (parent.add closed) outer rest
  | fuel + 1, b, outer, '&' :: '&' :: rest => readBrackets fuel (b.operate .intersection) outer rest
  | fuel + 1, b, outer, '-' :: '-' :: rest => readBrackets fuel (b.operate .difference) outer rest
  | fuel + 1, b, outer, '~' :: '~' :: rest =>
    readBrackets fuel (b.operate .symmetricDifference) outer rest
  | fuel + 1, b, outer, text => do
    let (s, rest) ← readRange text
    readBrackets fuel (b.add s) outer rest

/-- Reads a set behind its opening bracket. -/
def readSet (text : List Char) : Except PatternError (Reading CharSet) :=
  readBrackets (text.length + 1) (openBracket text).1 [] (openBracket text).2

/-! ### Repetitions -/

/-- Reads a count between blanks. Counts end below `2 ^ 32`. -/
def readCount (text : List Char) : Except PatternError (Reading Nat) :=
  let text := text.dropWhile Text.isBlank
  let digits := text.takeWhile Char.isDigit
  let n := digits.foldl (fun n c => 10 * n + (c.toNat - '0'.toNat)) 0
  if digits.isEmpty || UInt32.size ≤ n then .error .invalidCount
  else .ok (n, (text.dropWhile Char.isDigit).dropWhile Text.isBlank)

/-- A repetition with the mark behind it that makes it prefer few repetitions. -/
def readLazily (least : Nat) (most : Option Nat) : List Char → Reading Piece
  | '?' :: rest => (.repetition least most true, rest)
  | text => (.repetition least most false, text)

/-- Reads a repetition count behind its opening brace. -/
def readRepetition (text : List Char) : Except PatternError (Reading Piece) := do
  let (least, rest) ← readCount text
  match rest with
  | '}' :: rest => return readLazily least (some least) rest
  | ',' :: '}' :: rest => return readLazily least none rest
  | ',' :: rest =>
    match ← readCount rest with
    | (most, '}' :: rest) =>
      if least ≤ most then return readLazily least (some most) rest else .error .invalidCount
    | _ => .error .invalidCount
  | _ => .error .invalidCount

/-! ### Groups -/

/-- Reads flags up to the colon or parenthesis behind them: letters switch flags on, and behind a
hyphen off. -/
def readFlags (on : Bool) (seen : List Char) (change : FlagChange) :
    List Char → Except PatternError (Reading FlagChange)
  | [] => .error .invalidFlag
  | c :: rest =>
    if c == ':' || c == ')' then
      if !on && seen.head? == some '-' then .error .invalidFlag else .ok (change, c :: rest)
    else if seen.contains c then .error .invalidFlag
    else match c with
      | '-' => readFlags false (c :: seen) change rest
      | 'i' => readFlags on (c :: seen) { change with ignoreCase := some on } rest
      | 'm' => readFlags on (c :: seen) { change with multiLine := some on } rest
      | 's' => readFlags on (c :: seen) { change with dotNewline := some on } rest
      | 'U' => readFlags on (c :: seen) change rest
      | 'u' => readFlags on (c :: seen) change rest
      | _ => .error .invalidFlag

/-- A name of a group: a letter or an underscore, and then also digits, points and brackets. -/
def isGroupName : List Char → Bool
  | [] => false
  | c :: rest =>
    (c == '_' || Text.isLetter c) &&
      rest.all fun c =>
        c == '_' || c == '.' || c == '[' || c == ']' || Text.isLetter c || Text.isNumeral c

/-- Reads the name of a group up to the closing angle bracket. -/
def readName (text : List Char) : Except PatternError (Reading Piece) :=
  let name := text.takeWhile (· != '>')
  match text.dropWhile (· != '>') with
  | [] => .error .invalidGroupName
  | _ :: rest =>
    if isGroupName name then .ok (.openGroup true (some (String.ofList name)) {}, rest)
    else .error .invalidGroupName

/-- Reads the start of a group behind its parenthesis. -/
def readGroup (text : List Char) : Except PatternError (Reading Piece) :=
  match text with
  | '?' :: '=' :: _ => .error .lookAround
  | '?' :: '!' :: _ => .error .lookAround
  | '?' :: '<' :: '=' :: _ => .error .lookAround
  | '?' :: '<' :: '!' :: _ => .error .lookAround
  | '?' :: 'P' :: '<' :: rest => readName rest
  | '?' :: '<' :: rest => readName rest
  | '?' :: ')' :: _ => .error .repetitionOfNothing
  | '?' :: rest => do
    match ← readFlags true [] {} rest with
    | (change, ':' :: rest) => return (.openGroup false none change, rest)
    | (change, _ :: rest) => return (.setFlags change, rest)
    | (_, []) => .error .invalidFlag
  | _ => .ok (.openGroup true none {}, text)

/-! ### Pieces -/

/-- Reads one piece. -/
def readPiece (c : Char) (rest : List Char) : Except PatternError (Reading Piece) :=
  match c with
  | '\\' => do
    match ← readEscape rest with
    | (.char c, rest) => return (.literal c, rest)
    | (.set s, rest) => return (.set s, rest)
    | (.assertion a, rest) => return (.assertion a, rest)
  | '[' => do
    let (s, rest) ← readSet rest
    return (.set s, rest)
  | '{' => readRepetition rest
  | '*' => .ok (readLazily 0 none rest)
  | '+' => .ok (readLazily 1 none rest)
  | '?' => .ok (readLazily 0 (some 1) rest)
  | '(' => readGroup rest
  | ')' => .ok (.closeGroup, rest)
  | '|' => .ok (.bar, rest)
  | '.' => .ok (.dot, rest)
  | '^' => .ok (.caret, rest)
  | '$' => .ok (.dollar, rest)
  | c => .ok (.literal c, rest)

/-- Cuts a text no longer than `fuel` into pieces. -/
def scanPieces : Nat → List Char → Except PatternError (List Piece)
  | _, [] => .ok []
  | 0, _ => .ok []
  | fuel + 1, c :: rest => do
    let (p, rest) ← readPiece c rest
    return p :: (← scanPieces fuel rest)

/-- The pieces of a text. -/
def Piece.scan (text : List Char) : Except PatternError (List Piece) := scanPieces text.length text

end TableQuery.Regex
