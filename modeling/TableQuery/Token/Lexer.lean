/-
Queries cut into tokens.

Blanks and comments separate tokens and are dropped; a comment runs from two hyphens to the end of
its line. `Token.scan` ends every list of tokens with `Token.eof`. It fails only on quotes that are
never closed.
-/
import TableQuery.Text.Blank
import TableQuery.Text.Letter
import TableQuery.Text.Numeral
import TableQuery.Token.Basic

namespace TableQuery

/-- A quote that is never closed, and the place where it was opened. -/
inductive LexError where
  | unclosedIdentifier (position : Nat)
  | unclosedString (position : Nat)
  deriving Repr, DecidableEq

/-- The wording of an error in a text. -/
def LexError.message : LexError → String
  | unclosedIdentifier p => s!"Unterminated quoted identifier starting at position {p}"
  | unclosedString p => s!"Unterminated string literal starting at position {p}"

namespace Token

/-- Names start with a letter or an underscore. -/
def startsName (c : Char) : Bool := Text.isLetter c || c == '_'

/-- Names go on with letters, numerals and underscores. -/
def continuesName (c : Char) : Bool := Text.isLetter c || Text.isNumeral c || c == '_'

/-- Drops blanks and comments from the front of a text that may start inside a comment. -/
def skip (inComment : Bool) : List Char → List Char
  | [] => []
  | c :: rest =>
    if inComment then skip (c != '\n') rest
    else if Text.isBlank c then skip false rest
    else if c = '-' ∧ rest.head? = some '-' then skip true rest
    else c :: rest

/-- Puts a character in front of what was read. -/
def prepend (c : Char) (r : Option (List Char × List Char)) : Option (List Char × List Char) :=
  match r with
  | some (text, after) => some (c :: text, after)
  | none => none

/-- Reads a name up to its closing quote, which is written twice inside the name. -/
def readQuoted (quote : Char) : List Char → Option (List Char × List Char)
  | [] => none
  | [c] => if c = quote then some ([], []) else none
  | c :: d :: rest =>
    if c = quote then
      if d = quote then prepend quote (readQuoted quote rest)
      else some ([], d :: rest)
    else prepend c (readQuoted quote (d :: rest))

/-- The character that a backslash and the given character stand for. -/
def unescape (c : Char) : Char :=
  match c with
  | 't' => '\t'
  | 'n' => '\n'
  | 'r' => '\r'
  | 'b' => '\x08'
  | 'f' => '\x0c'
  | c => c

/-- Reads a text up to its closing quote, which is written twice or behind a backslash inside the
text. -/
def readString : List Char → Option (List Char × List Char)
  | [] => none
  | [c] => if c = '\x27' then some ([], []) else none
  | c :: d :: rest =>
    if c = '\x27' then
      if d = '\x27' then prepend '\x27' (readString rest)
      else some ([], d :: rest)
    else if c = '\\' then prepend (unescape d) (readString rest)
    else prepend c (readString (d :: rest))

/-- Reads digits, and with them a point if digits follow it. -/
def readNumber (text : List Char) : List Char × List Char :=
  let whole := text.takeWhile Char.isDigit
  let rest := text.dropWhile Char.isDigit
  match rest with
  | '.' :: d :: more =>
    if d.isDigit then
      (whole ++ '.' :: (d :: more).takeWhile Char.isDigit, (d :: more).dropWhile Char.isDigit)
    else (whole, rest)
  | _ => (whole, rest)

/-- The sign that a character is by itself. -/
def sign? (c : Char) : Option Sign :=
  match c with
  | '+' => some .plus
  | '-' => some .minus
  | '*' => some .star
  | '/' => some .slash
  | '%' => some .percent
  | '=' => some .equal
  | '<' => some .less
  | '>' => some .greater
  | '(' => some .leftParen
  | ')' => some .rightParen
  | '[' => some .leftBracket
  | ']' => some .rightBracket
  | ',' => some .comma
  | ';' => some .semicolon
  | '.' => some .dot
  | _ => none

/-- Reads a sign of one or two characters, or a character that is no sign. -/
def readSign (c : Char) (rest : List Char) : Token × List Char :=
  match c, rest with
  | '<', '=' :: rest => (sign .lessEqual, rest)
  | '<', '>' :: rest => (sign .notEqual, rest)
  | '>', '=' :: rest => (sign .greaterEqual, rest)
  | '!', '=' :: rest => (sign .notEqual, rest)
  | c, rest =>
    match sign? c with
    | some s => (sign s, rest)
    | none => (unknown c, rest)

/-- The keyword or identifier that a word is. -/
def ofWord (word : List Char) : Token :=
  match Keyword.ofWord? word with
  | some k => keyword k
  | none => identifier (String.ofList word)

/-- Reads the token that starts with the character `c` at the given position. -/
def read (position : Nat) (c : Char) (rest : List Char) : Except LexError (Token × List Char) :=
  if c = '\x27' then
    match readString rest with
    | some (text, after) => .ok (string (String.ofList text), after)
    | none => .error (.unclosedString position)
  else if c = '\x60' ∨ c = '\x22' then
    match readQuoted c rest with
    | some (name, after) => .ok (quoted (String.ofList name), after)
    | none => .error (.unclosedIdentifier position)
  else if startsName c then
    .ok (ofWord (c :: rest.takeWhile continuesName), rest.dropWhile continuesName)
  else if c.isDigit then
    .ok (number (String.ofList (readNumber (c :: rest)).1), (readNumber (c :: rest)).2)
  else .ok (readSign c rest)

/-! ### Every token takes a part of the text -/

theorem skip_length_le (inComment : Bool) (text : List Char) :
    (skip inComment text).length ≤ text.length := by
  induction text generalizing inComment with
  | nil => simp [skip]
  | cons c rest ih =>
    unfold skip
    split
    · exact Nat.le_succ_of_le (ih _)
    · split
      · exact Nat.le_succ_of_le (ih _)
      · split
        · exact Nat.le_succ_of_le (ih _)
        · exact Nat.le_refl _

theorem prepend_eq_some {c : Char} {o : Option (List Char × List Char)} {r : List Char × List Char}
    (h : prepend c o = some r) : ∃ q, o = some q ∧ r = (c :: q.1, q.2) := by
  cases o with
  | none => simp [prepend] at h
  | some q => exact ⟨q, rfl, by simpa [prepend] using h.symm⟩

theorem readQuoted_length_le {quote : Char} {text : List Char} {r : List Char × List Char}
    (h : readQuoted quote text = some r) : r.2.length ≤ text.length := by
  fun_induction readQuoted quote text generalizing r <;> grind [prepend_eq_some]

theorem readString_length_le {text : List Char} {r : List Char × List Char}
    (h : readString text = some r) : r.2.length ≤ text.length := by
  fun_induction readString text generalizing r <;> grind [prepend_eq_some]

theorem readNumber_cons_length_le {c : Char} (rest : List Char) (hc : c.isDigit = true) :
    (readNumber (c :: rest)).2.length ≤ rest.length := by
  have hd (p : Char → Bool) (l : List Char) : (l.dropWhile p).length ≤ l.length :=
    (List.dropWhile_suffix p).length_le
  have h := hd Char.isDigit rest
  unfold readNumber
  simp only [List.dropWhile_cons, hc, ↓reduceIte]
  split
  · rename_i d more hrest
    split
    · rw [hrest] at h
      simp only [List.length_cons] at h
      exact Nat.le_trans (hd _ _) (by omega)
    · exact h
  · exact h

theorem readSign_length_le (c : Char) (rest : List Char) :
    (readSign c rest).2.length ≤ rest.length := by
  unfold readSign
  split
  all_goals first
    | (simp only [List.length_cons]; omega)
    | (split <;> exact Nat.le_refl _)

/-- What is left behind a token is no longer than what was left behind its first character. -/
theorem read_length_le {position : Nat} {c : Char} {rest : List Char} {r : Token × List Char}
    (h : read position c rest = .ok r) : r.2.length ≤ rest.length := by
  unfold read at h
  split at h
  · split at h
    · rename_i text after hr
      cases h
      exact readString_length_le hr
    · cases h
  · split at h
    · split at h
      · rename_i name after hr
        cases h
        exact readQuoted_length_le hr
      · cases h
    · split at h
      · cases h
        exact (List.dropWhile_suffix _).length_le
      · split at h
        · rename_i hd
          cases h
          exact readNumber_cons_length_le rest hd
        · cases h
          exact readSign_length_le c rest

/-! ### Whole texts -/

/-- The tokens of a text that is the end of one of the given length. -/
def scanFrom (length : Nat) (text : List Char) : Except LexError (List Token) :=
  match _h : skip false text with
  | [] => .ok [eof]
  | c :: rest =>
    match _hr : read (length - (c :: rest).length) c rest with
    | .error e => .error e
    | .ok (t, after) =>
      match scanFrom length after with
      | .error e => .error e
      | .ok ts => .ok (t :: ts)
termination_by text.length
decreasing_by
  have h₁ := skip_length_le false text
  have h₂ := read_length_le _hr
  rw [_h] at h₁
  simp only [List.length_cons] at h₁ h₂
  omega

/-- The tokens of a text, `Token.eof` at the end. -/
def scan (text : String) : Except LexError (List Token) :=
  scanFrom text.toList.length text.toList

end Token

end TableQuery
