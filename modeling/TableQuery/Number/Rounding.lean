/-
The binary number nearest to a ratio.

`divideToEven` rounds a quotient to a whole number, and `ofRatio` to a binary number with a
significand of at most fifty-three bits; both take the even one of two equally near.
-/
import TableQuery.Number.Binary

namespace TableQuery.Number

/-- The whole number nearest to `n / d`, the even one of two equally near. -/
def divideToEven (n d : Nat) : Nat :=
  let floor := n / d
  let twice := 2 * (n % d)
  if twice < d then floor
  else if d < twice then floor + 1
  else if floor % 2 = 0 then floor else floor + 1

/-- The exponent at which the significand of `n / d` has fifty-three bits, or the least exponent
there is. The first guess may leave one bit too many. -/
def ratioExponent (n d : Nat) : Int :=
  let guess := max ((n.log2 : Int) - d.log2 - 53) (-1074)
  if n * twoTo (-guess).toNat < twoTo 53 * (d * twoTo guess.toNat) then guess else guess + 1

/-- The binary number nearest to `n / d`; beyond the greatest one it is infinity. -/
def ofRatio (n d : Nat) : Float :=
  if n = 0 then ofDyadic false 0 0
  else
    let q := ratioExponent n d
    if 971 < q then infinity
    else ofDyadic false (divideToEven (n * twoTo (-q).toNat) (d * twoTo q.toNat)) q

/-- The binary number nearest to a count. -/
def ofNat (n : Nat) : Float := ofRatio n 1

end TableQuery.Number
