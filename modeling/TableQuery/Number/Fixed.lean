/-
A number written with a fixed count of decimal places.

The exact value of the number is rounded to the last place, a half going to the even neighbour, so
`0.125` is `0.12` with two places and `2.675`, which is stored slightly below, is `2.67`.
-/
import TableQuery.Number.Notation
import TableQuery.Number.Rounding

namespace TableQuery.Number

/-- Writes `x` with `places` digits behind the point; the sign stays even on zero. -/
def fixedText (places : Nat) (x : Float) : String :=
  if isNotANumber x then "NaN"
  else if isInfinite x then signText x ++ "inf"
  else
    let units := divideToEven (significand x * twoTo (exponent x).toNat * tenTo places)
      (twoTo (-exponent x).toNat)
    let text := toString units
    let text := zeros (places + 1 - text.length) ++ text
    let whole := text.length - places
    signText x ++ String.ofList (text.toList.take whole) ++
      (if places = 0 then "" else "." ++ String.ofList (text.toList.drop whole))

end TableQuery.Number
