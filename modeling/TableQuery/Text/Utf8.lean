/-
Characters as bytes.

A character is written as one to four bytes. The characters from one to another are those of
several rows of byte ranges: `byteRows` cuts a range of characters until the bytes of all of its
characters are the combinations of a range for each byte.
-/
import TableQuery.Text.Ranges

namespace TableQuery.Text

/-- The bytes of a character. -/
def utf8Bytes (n : Nat) : List Nat :=
  if n < 0x80 then [n]
  else if n < 0x800 then [0xc0 + n / 64, 0x80 + n % 64]
  else if n < 0x10000 then [0xe0 + n / 4096, 0x80 + n / 64 % 64, 0x80 + n % 64]
  else [0xf0 + n / 262144, 0x80 + n / 4096 % 64, 0x80 + n / 64 % 64, 0x80 + n % 64]

/-- A range of bytes. -/
abbrev ByteRange := Nat × Nat

/-- Where the characters from `first` to `last` are cut when their last bytes, which stand for
`size` characters, are not the same range behind all of the bytes in front. -/
def cutWithin (first last size : Nat) : Option Nat :=
  if first / size = last / size then none
  else if first % size ≠ 0 then some (first / size * size + size)
  else if last % size ≠ size - 1 then some (last / size * size)
  else none

/-- Where the characters from `first` to `last` are cut, if they need to be: behind the last
character of a length, or within a length. -/
def cutBetween (first last : Nat) : Option Nat :=
  match [0x7f, 0x7ff, 0xffff].find? fun n => first ≤ n && n < last with
  | some n => some (n + 1)
  | none => if last < 0x80 then none else [64, 4096, 262144].findSome? (cutWithin first last)

/-- The byte ranges of the characters from `first` to `last`, after at most `cuts` cuts one inside
the other. -/
def byteRowsWithin : Nat → Nat → Nat → List (List ByteRange)
  | 0, _, _ => []
  | cuts + 1, first, last =>
    if last < first then []
    else if first < 0xe000 && 0xd7ff < last then
      byteRowsWithin cuts first 0xd7ff ++ byteRowsWithin cuts 0xe000 last
    else match cutBetween first last with
      | some n => byteRowsWithin cuts first (n - 1) ++ byteRowsWithin cuts n last
      | none => [(utf8Bytes first).zip (utf8Bytes last)]

/-- The byte ranges of the characters from `first` to `last`. There are at most one cut at the
surrogates, three between lengths and six within a length. -/
def byteRows (first last : Nat) : List (List ByteRange) := byteRowsWithin 16 first last

/-- The byte ranges of the characters of a set. -/
def Ranges.byteRows (ranges : Ranges) : List (List ByteRange) :=
  ranges.flatMap fun (first, last) => Text.byteRows first last

end TableQuery.Text
