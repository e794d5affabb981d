/-
Binary floating-point numbers as signed dyadic rationals.

A finite number is `± m · 2 ^ q`; `significand` and `exponent` read `m` and `q` off its bits.
`orderKey` is the integer by which numbers are compared: it grows with the number, both zeros
share the key `0`, and what is not a number has no key.

* `remainder` — the exact remainder of a division truncated toward zero;
* `roundDown` — the largest whole number that is not above a number.
-/

namespace TableQuery.Number

/-- Two to a power. -/
abbrev twoTo (k : Nat) : Nat := Nat.pow 2 k

/-- Ten to a power. -/
abbrev tenTo (k : Nat) : Nat := Nat.pow 10 k

/-- The eleven bits that hold the exponent. -/
def exponentBits (x : Float) : Nat := (x.toBits / 0x10000000000000 % 2048).toNat

/-- The fifty-two bits behind the leading one of the significand. -/
def fractionBits (x : Float) : Nat := (x.toBits % 0x10000000000000).toNat

/-- The sign bit; it is set for negative zero too. -/
def isNegative (x : Float) : Bool := 0x8000000000000000 ≤ x.toBits

/-- The bits below the sign. -/
def magnitudeBits (x : Float) : Nat := (x.toBits % 0x8000000000000000).toNat

/-- Neither finite nor an infinity. -/
def isNotANumber (x : Float) : Bool := exponentBits x == 2047 && fractionBits x != 0

/-- One of the two infinities. -/
def isInfinite (x : Float) : Bool := exponentBits x == 2047 && fractionBits x == 0

/-- A finite number is `± significand · 2 ^ exponent`. -/
def significand (x : Float) : Nat :=
  if exponentBits x = 0 then fractionBits x
  else (x.toBits % 0x10000000000000 + 0x10000000000000).toNat

/-- A finite number is `± significand · 2 ^ exponent`; the numbers below the normal range share
the exponent of the smallest normal ones. -/
def exponent (x : Float) : Int :=
  if exponentBits x = 0 then -1074 else (exponentBits x : Int) - 1075

/-- The integer by which numbers are ordered: the bits below the sign count the numbers from zero
upward, and the sign bit turns the count around. -/
def orderKey (x : Float) : Option Int :=
  if isNotANumber x then none
  else
    some (if isNegative x then -(magnitudeBits x : Int) else (magnitudeBits x : Int))

/-- Equality of numbers: both zeros are equal, and what is not a number equals nothing. -/
def equal (x y : Float) : Bool :=
  match orderKey x, orderKey y with
  | some a, some b => a == b
  | _, _ => false

/-- The order of two numbers, absent when one of them is not a number. -/
def compare? (x y : Float) : Option Ordering :=
  match orderKey x, orderKey y with
  | some a, some b => some (compare a b)
  | _, _ => none

/-- The total order that puts what is not a number behind every number. -/
def sortCompare (x y : Float) : Ordering :=
  match orderKey x, orderKey y with
  | some a, some b => compare a b
  | some _, none => .lt
  | none, some _ => .gt
  | none, none => .eq

/-- The bits of a number, the same for both zeros and for all that is not a number. -/
def canonicalBits (x : Float) : Nat :=
  if isNotANumber x then 0x7ff8000000000000
  else if magnitudeBits x = 0 then 0
  else x.toBits.toNat

/-- Zero of either sign. -/
def isZero (x : Float) : Bool := orderKey x == some 0

/-- The number `± m · 2 ^ q`, for `m` below `2 ^ 53` and a value in the range of the format. -/
def ofDyadic (negative : Bool) (m : Nat) (q : Int) : Float :=
  let shift := min (52 - m.log2) (q + 1074).toNat
  let m := m <<< shift
  let q := q - shift
  let magnitude := if m < twoTo 52 then m else (q + 1075).toNat * twoTo 52 + (m - twoTo 52)
  Float.ofBits (UInt64.ofNat (if negative then twoTo 63 + magnitude else magnitude))

/-- The number that stands for an undefined result. -/
def notANumber : Float := Float.ofBits 0x7ff8000000000000

/-- Positive infinity. -/
def infinity : Float := Float.ofBits 0x7ff0000000000000

/-- No digits stand behind the point: none of the bits that count parts of one are set. -/
def isWhole (x : Float) : Bool :=
  let e := exponentBits x
  if e = 2047 then false
  else if e < 1023 then magnitudeBits x == 0
  else 1075 ≤ e || x.toBits % (1 <<< UInt64.ofNat (1075 - e)) == 0

/-- The largest whole number that is at most `x`. -/
def roundDown (x : Float) : Float :=
  if exponentBits x = 2047 || 0 ≤ exponent x then x
  else
    let unit := twoTo (-exponent x).toNat
    let whole := significand x / unit
    let above := isNegative x && significand x % unit != 0
    ofDyadic (isNegative x) (if above then whole + 1 else whole) 0

/-- The remainder of `x / y` truncated toward zero, computed exactly; it carries the sign of `x`.
There is none when `x` is infinite or `y` is zero. -/
def remainder (x y : Float) : Float :=
  if exponentBits x = 2047 || isNotANumber y || isZero y then notANumber
  else if isInfinite y then x
  else
    let unit := min (exponent x) (exponent y)
    let a := significand x * twoTo (exponent x - unit).toNat
    let b := significand y * twoTo (exponent y - unit).toNat
    ofDyadic (isNegative x) (a % b) unit

end TableQuery.Number
