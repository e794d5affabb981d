/-
The numbers of JSON texts.

The digits are gathered into a count below `2 ^ 64`, and the power of ten that is then missing is
multiplied or divided in binary arithmetic. The result may differ from the nearest number in its
last bits. Digits that do not fit any more only move the point. Numbers beyond the greatest one are
refused.
-/
import TableQuery.Number.Reader

namespace TableQuery.Json

/-- The digits of a number: their value as far as it fits, and the power of ten to multiply it
with. -/
structure Numeral where
  significand : Nat
  exponent : Int

/-- The significand with one more digit behind it, if it stays below `2 ^ 64`. -/
def appendDigit? (significand : Nat) (c : Char) : Option Nat :=
  let n := 10 * significand + (c.toNat - '0'.toNat)
  if n < UInt64.size then some n else none

/-- Takes in the digits before the point. Once one does not fit, it and all behind it are
counted. -/
def wholeDigits (significand : Nat) : List Char → Numeral
  | [] => ⟨significand, 0⟩
  | c :: rest =>
    match appendDigit? significand c with
    | some n => wholeDigits n rest
    | none => ⟨significand, (rest.length + 1 : Nat)⟩

/-- Takes in the digits behind the point. Once one does not fit, the rest is left out. -/
def fractionDigits (n : Numeral) : List Char → Numeral
  | [] => n
  | c :: rest =>
    match appendDigit? n.significand c with
    | some s => fractionDigits ⟨s, n.exponent - 1⟩ rest
    | none => n

/-- Ten to a power. -/
def powerOfTen (k : Nat) : Float := Number.ofNat (Number.tenTo k)

/-- Divides by `10 ^ k`, by at most `10 ^ 308` at a time. -/
def divideByPower (x : Float) (k : Nat) : Float :=
  if k ≤ 308 then x / powerOfTen k
  else if Number.isZero x then x
  else divideByPower (x / powerOfTen 308) (k - 308)
termination_by k

/-- The number that a numeral stands for, unless it is too great. -/
def Numeral.value? (n : Numeral) : Option Float :=
  let x := Number.ofNat n.significand
  if n.exponent < 0 then some (divideByPower x (-n.exponent).toNat)
  else if n.exponent ≤ 308 then
    let y := x * powerOfTen n.exponent.toNat
    if Number.isInfinite y then none else some y
  else if n.significand = 0 then some x
  else none

/-- The numeral times ten to a power written in digits. A power of `2 ^ 31` or more is too great, or
else makes the number vanish. -/
def Numeral.scale? (n : Numeral) (negative : Bool) (digits : List Char) : Option Float :=
  let power := Number.digitsValue digits
  if power < Number.twoTo 31 then
    Numeral.value? ⟨n.significand, if negative then n.exponent - power else n.exponent + power⟩
  else if n.significand ≠ 0 && !negative then none
  else some (Number.ofNat 0)

/-- Reads an exponent if there is one. -/
def readExponent (n : Numeral) (text : List Char) : Option (Float × List Char) :=
  match text with
  | c :: rest =>
    if c = 'e' || c = 'E' then
      let (negative, rest) := match rest with
        | '-' :: rest => (true, rest)
        | '+' :: rest => (false, rest)
        | _ => (false, rest)
      let digits := rest.takeWhile Char.isDigit
      if digits.isEmpty then none
      else (n.scale? negative digits).map fun x => (x, rest.dropWhile Char.isDigit)
    else n.value?.map fun x => (x, text)
  | [] => n.value?.map fun x => (x, text)

/-- Reads a number without sign: digits without needless zeros, a point with digits behind it, and
an exponent. -/
def readMagnitude (text : List Char) : Option (Float × List Char) :=
  let whole := text.takeWhile Char.isDigit
  let rest := text.dropWhile Char.isDigit
  if whole.isEmpty || (whole.head? = some '0' && 1 < whole.length) then none
  else
    let n := wholeDigits 0 whole
    match rest with
    | '.' :: more =>
      let fraction := more.takeWhile Char.isDigit
      if fraction.isEmpty then none
      else readExponent (fractionDigits n fraction) (more.dropWhile Char.isDigit)
    | _ => readExponent n rest

/-- Reads a number. -/
def readNumber (text : List Char) : Option (Float × List Char) :=
  match text with
  | '-' :: rest => (readMagnitude rest).map fun (x, after) => (-x, after)
  | _ => readMagnitude text

end TableQuery.Json
