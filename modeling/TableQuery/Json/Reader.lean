/-
Rows read from JSON texts.

A table is an array of objects whose values are null, booleans, numbers, texts and arrays of these.
Nothing else is accepted, and nothing may follow. Arrays and objects may be nested at most 127 deep.
-/
import TableQuery.Json.Numeral
import TableQuery.Table.View

namespace TableQuery.Json

/-- The characters between the parts of a JSON text. -/
def isSpace (c : Char) : Bool := c == ' ' || c == '\n' || c == '\t' || c == '\r'

/-- Drops the spaces in front. -/
def skipSpace (text : List Char) : List Char := text.dropWhile isSpace

/-- The value of a hexadecimal digit. -/
def hexValue? (c : Char) : Option Nat :=
  if c.isDigit then some (c.toNat - '0'.toNat)
  else if 'a' ≤ c && c ≤ 'f' then some (c.toNat - 'a'.toNat + 10)
  else if 'A' ≤ c && c ≤ 'F' then some (c.toNat - 'A'.toNat + 10)
  else none

/-- The value of four hexadecimal digits. -/
def hexUnit? (a b c d : Char) : Option Nat := do
  return ((← hexValue? a) * 16 + (← hexValue? b)) * 256 + ((← hexValue? c) * 16 + (← hexValue? d))

/-- The character of an escape of one letter. -/
def unescape? : Char → Option Char
  | '\x22' => some '\x22'
  | '\\' => some '\\'
  | '/' => some '/'
  | 'b' => some '\x08'
  | 'f' => some '\x0c'
  | 'n' => some '\n'
  | 'r' => some '\r'
  | 't' => some '\t'
  | _ => none

/-- Reads a character whose code is written in four digits, or in twice four for a code beyond
them. -/
def readUnicode (text : List Char) : Option (Char × List Char) :=
  match text with
  | a :: b :: c :: d :: rest =>
    match hexUnit? a b c d with
    | none => none
    | some n =>
      if 0xd800 ≤ n && n < 0xdc00 then
        match rest with
        | '\\' :: 'u' :: e :: f :: g :: h :: rest =>
          match hexUnit? e f g h with
          | none => none
          | some m =>
            if 0xdc00 ≤ m && m < 0xe000 then
              some (Char.ofNat (0x10000 + (n - 0xd800) * 0x400 + (m - 0xdc00)), rest)
            else none
        | _ => none
      else if 0xdc00 ≤ n && n < 0xe000 then none
      else some (Char.ofNat n, rest)
  | _ => none

/-- Reads a text up to its closing quote, at most `fuel` characters of it. -/
def readText : Nat → List Char → Option (List Char × List Char)
  | 0, _ => none
  | _, [] => none
  | fuel + 1, c :: rest =>
    if c = '\x22' then some ([], rest)
    else if c.toNat < 32 then none
    else if c = '\\' then
      match rest with
      | 'u' :: rest => do
        let (c, rest) ← readUnicode rest
        let (text, after) ← readText fuel rest
        return (c :: text, after)
      | e :: rest => do
        let c ← unescape? e
        let (text, after) ← readText fuel rest
        return (c :: text, after)
      | [] => none
    else do
      let (text, after) ← readText fuel rest
      return (c :: text, after)

/-- Reads a text behind its opening quote, at most `fuel` characters of it. -/
def readString (fuel : Nat) (text : List Char) : Option (String × List Char) :=
  (readText fuel text).map fun (s, after) => (String.ofList s, after)

/-- Takes given characters. -/
def expect? (word : List Char) (text : List Char) : Option (List Char) :=
  if word.isPrefixOf text then some (text.drop word.length) else none

mutual

/-- Reads a value in which arrays are nested at most `depth` deep, in at most `fuel` calls. -/
def readValue : Nat → Nat → List Char → Option (Value × List Char)
  | 0, _, _ => none
  | fuel + 1, depth, text =>
    match skipSpace text with
    | '[' :: rest =>
      match depth with
      | 0 => none
      | depth + 1 =>
        match skipSpace rest with
        | ']' :: after => some (.list [], after)
        | _ => (readItems fuel depth rest).map fun (items, after) => (.list items, after)
    | '\x22' :: rest => (readString fuel rest).map fun (s, after) => (.string s, after)
    | 'n' :: rest => (expect? ['u', 'l', 'l'] rest).map fun after => (.null, after)
    | 't' :: rest => (expect? ['r', 'u', 'e'] rest).map fun after => (.boolean true, after)
    | 'f' :: rest => (expect? ['a', 'l', 's', 'e'] rest).map fun after => (.boolean false, after)
    | text => (readNumber text).map fun (x, after) => (.number x, after)

/-- Reads the items of an array up to its closing bracket. -/
def readItems : Nat → Nat → List Char → Option (List Value × List Char)
  | 0, _, _ => none
  | fuel + 1, depth, text => do
    let (v, rest) ← readValue fuel depth text
    match skipSpace rest with
    | ',' :: rest => do
      let (items, after) ← readItems fuel depth rest
      return (v :: items, after)
    | ']' :: after => return ([v], after)
    | _ => none

end

/-- Reads the cells of an object up to its closing brace, in at most `fuel` calls. -/
def readCells : Nat → List Char → Option (List (String × Value) × List Char)
  | 0, _ => none
  | fuel + 1, text =>
    match skipSpace text with
    | '\x22' :: rest => do
      let (name, rest) ← readString fuel rest
      let rest ← expect? [':'] (skipSpace rest)
      let (v, rest) ← readValue fuel 125 rest
      match skipSpace rest with
      | ',' :: rest => do
        let (cells, after) ← readCells fuel rest
        return ((name, v) :: cells, after)
      | '\x7d' :: after => return ([(name, v)], after)
      | _ => none
    | _ => none

/-- Reads an object in at most `fuel` calls. -/
def readRow (fuel : Nat) (text : List Char) : Option (Row × List Char) := do
  let rest ← expect? ['\x7b'] (skipSpace text)
  match skipSpace rest with
  | '\x7d' :: after => return (Labelled.ofList [], after)
  | _ =>
    let (cells, after) ← readCells fuel rest
    return (Labelled.ofList cells, after)

/-- Reads objects up to the closing bracket, in at most `fuel` calls. -/
def readRows : Nat → List Char → Option (List Row × List Char)
  | 0, _ => none
  | fuel + 1, text => do
    let (row, rest) ← readRow fuel text
    match skipSpace rest with
    | ',' :: rest => do
      let (rows, after) ← readRows fuel rest
      return (row :: rows, after)
    | ']' :: after => return ([row], after)
    | _ => none

/-- The rows of a JSON text. No character takes more than two calls. -/
def rows? (text : String) : Option (List Row) := do
  let rest ← expect? ['['] (skipSpace text.toList)
  let (rows, after) ← match skipSpace rest with
    | ']' :: after => some ([], after)
    | _ => readRows (2 * rest.length + 2) rest
  if (skipSpace after).isEmpty then some rows else none

end TableQuery.Json

namespace TableQuery

/-- The view of the rows of a JSON text, with the fields of its first row. -/
def View.ofJson (text : String) : Except TableError View :=
  match Json.rows? text with
  | none => .error .notAnArrayOfObjects
  | some rows =>
    let v := View.ofRows rows none
    match v.undeclared? with
    | some e => .error e
    | none => .ok v

end TableQuery
