/-
How numbers are written.

Three spellings share the shortest digits that read back:

* `plainText` — positional, with as many zeros as it takes;
* `displayText` — as `plainText`, but whole numbers show all their digits;
* `scientificText` — positional in a middle range, with an exponent outside it.
-/
import TableQuery.Number.Shortest

namespace TableQuery.Number

/-- A row of `n` zeros. -/
def zeros (n : Nat) : String := String.ofList (List.replicate n '0')

/-- Writes `digits · 10 ^ exponent` positionally: zeros fill up to the point on either side. -/
def Decimal.positional (d : Decimal) : String :=
  let text := toString d.digits
  if d.digits = 0 then "0"
  else if 0 ≤ d.exponent then text ++ zeros d.exponent.toNat
  else
    let places := (-d.exponent).toNat
    if places < text.length then
      let whole := text.length - places
      String.ofList (text.toList.take whole) ++ "." ++ String.ofList (text.toList.drop whole)
    else "0." ++ zeros (places - text.length) ++ text

/-- The minus sign of a number whose sign bit is set. -/
def signText (x : Float) : String := if isNegative x then "-" else ""

/-- The shortest digits in positional notation; a half goes up. -/
def plainText (x : Float) : String :=
  if isNotANumber x then "NaN"
  else if isInfinite x then signText x ++ "inf"
  else signText x ++ (shortest .up x).positional

/-- The magnitude of a whole number, exactly. -/
def wholeMagnitude (x : Float) : Nat :=
  if 0 ≤ exponent x then significand x * twoTo (exponent x).toNat
  else significand x >>> (-exponent x).toNat

/-- The form in which queries show numbers: whole numbers below `10 ^ 21` with all their digits and
no sign on zero, all else with the shortest digits. -/
def displayText (x : Float) : String :=
  let n := wholeMagnitude x
  if isWhole x && n < tenTo 21 then if n = 0 then "0" else signText x ++ toString n
  else if isNotANumber x then "NaN"
  else if isInfinite x then signText x ++ "Infinity"
  else signText x ++ (shortest .up x).positional

/-- The powers of ten between which a magnitude is written positionally by `scientificText`. -/
structure PositionalRange where
  least : Int
  below : Int

/-- From `10 ^ -5` up to `10 ^ 16`. -/
def jsonRange : PositionalRange := ⟨-5, 16⟩

/-- The shortest digits, a half going to the even neighbour. Whole numbers keep `.0`; outside the
range one digit stands before the point and the exponent follows. -/
def PositionalRange.text (range : PositionalRange) (x : Float) : String :=
  let d := shortest .even x
  let digits := toString d.digits
  let leading : Int := d.exponent + digits.length - 1
  let body :=
    if d.digits = 0 then "0.0"
    else if range.least ≤ leading ∧ leading < range.below then
      if 0 ≤ d.exponent then d.positional ++ ".0" else d.positional
    else
      let rest := digits.toList.drop 1
      String.ofList (digits.toList.take 1) ++
        (if rest.isEmpty then "" else "." ++ String.ofList rest) ++
        "e" ++ (if leading < 0 then "-" else "+") ++ toString leading.natAbs
  signText x ++ body

/-- The number in a JSON text; JSON has no spelling for what is not finite. -/
def scientificText (x : Float) : String :=
  if exponentBits x = 2047 then "null" else jsonRange.text x

end TableQuery.Number
