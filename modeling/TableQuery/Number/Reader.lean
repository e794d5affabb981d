/-
Reading numbers.

A numeral is an optional sign and then `inf`, `infinity` or `nan` in any letter case, or digits
with an optional point and an optional exponent, where digits stand before or behind the point. It
denotes the binary number nearest to its decimal value.
-/
import TableQuery.Number.Rounding

namespace TableQuery.Number

/-- The value of a row of decimal digits. -/
def digitsValue (digits : List Char) : Nat :=
  digits.foldl (fun n c => 10 * n + (c.toNat - '0'.toNat)) 0

/-- The binary number nearest to `m · 10 ^ e`. Decimals far outside the range of the format are
settled by their size alone. -/
def ofDecimal (m : Nat) (e : Int) : Float :=
  let size : Int := (toString m).length + e
  if m = 0 || size < -330 then ofRatio 0 1
  else if 320 < size then infinity
  else ofRatio (m * tenTo e.toNat) (tenTo (-e).toNat)

/-- Sets the sign of a number. -/
def withSign (negative : Bool) (x : Float) : Float := if negative then -x else x

/-- The value of at least one digit and nothing else. -/
def readDigits? (digits : List Char) : Option Nat :=
  if !digits.isEmpty && digits.all Char.isDigit then some (digitsValue digits) else none

/-- An exponent part: nothing at all, or the letter `e` and a whole number. -/
def readExponent? : List Char → Option Int
  | [] => some 0
  | c :: rest =>
    if c = 'e' || c = 'E' then
      match rest with
      | '-' :: digits => (readDigits? digits).map fun n => -(n : Int)
      | '+' :: digits => (readDigits? digits).map fun n => (n : Int)
      | digits => (readDigits? digits).map fun n => (n : Int)
    else none

/-- A numeral without sign. -/
def readMagnitude? (text : List Char) : Option Float :=
  let word := String.ofList (text.map Char.toLower)
  if word = "inf" || word = "infinity" then some infinity
  else if word = "nan" then some notANumber
  else
    let whole := text.takeWhile Char.isDigit
    let rest := text.dropWhile Char.isDigit
    let (fraction, rest) := match rest with
      | '.' :: more => (more.takeWhile Char.isDigit, more.dropWhile Char.isDigit)
      | _ => ([], rest)
    if whole.isEmpty && fraction.isEmpty then none
    else
      (readExponent? rest).map fun e =>
        ofDecimal (digitsValue (whole ++ fraction)) (e - fraction.length)

/-- The number that a numeral denotes. -/
def read? (text : List Char) : Option Float :=
  match text with
  | '-' :: rest => (readMagnitude? rest).map (withSign true)
  | '+' :: rest => readMagnitude? rest
  | _ => readMagnitude? text

end TableQuery.Number
