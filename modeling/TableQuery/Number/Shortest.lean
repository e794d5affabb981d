/-
The shortest decimal that reads back as a given binary number.

Every real number that is nearer to `x` than to its neighbours reads back as `x`. `shortest`
searches ever finer decimal grids for a point among them: the first grid that has one wins, and of
its points the nearest to `x` is taken. Only the two neighbours of `x` on a grid can qualify.
-/
import TableQuery.Number.Binary

namespace TableQuery.Number

/-- The non-negative decimal `digits · 10 ^ exponent`. -/
structure Decimal where
  digits : Nat
  exponent : Int
  deriving Repr, DecidableEq

/-- Which of two equally near decimals is taken. -/
inductive Tie where
  | up
  | even
  deriving Repr, DecidableEq

/-- A positive number together with the reals that round to it, all scaled by `denominator`. -/
structure Interval where
  low : Nat
  value : Nat
  high : Nat
  denominator : Nat
  /-- The ends round to the number too. -/
  closed : Bool

/-- The reals that round to the finite number `x`: half a step to each side, and only a quarter
below the smallest number of a power of two. -/
def roundingInterval (x : Float) : Interval :=
  let m := significand x
  let q := exponent x - 2
  let below := if m = twoTo 52 && exponentBits x > 1 then 1 else 2
  let scale := twoTo q.toNat
  ⟨(4 * m - below) * scale, 4 * m * scale, (4 * m + 2) * scale, twoTo (-q).toNat, m % 2 == 0⟩

namespace Interval

/-- The real `numerator / denominator` rounds to the number. -/
def contains (i : Interval) (numerator denominator : Nat) : Bool :=
  let n := numerator * i.denominator
  if i.closed then i.low * denominator ≤ n && n ≤ i.high * denominator
  else i.low * denominator < n && n < i.high * denominator

/-- The point of the grid of multiples of `10 ^ k` that is nearest to the number among those that
round to it. -/
def onGrid? (i : Interval) (tie : Tie) (k : Int) : Option Decimal :=
  let up := tenTo k.toNat
  let down := tenTo (-k).toNat
  -- the number is `n / d` grid steps above zero
  let n := i.value * down
  let d := i.denominator * up
  let floor := n / d
  let lower := i.contains (floor * up) down
  let upper := i.contains ((floor + 1) * up) down
  let twice := 2 * (n % d)
  if lower && upper then
    if twice < d then some ⟨floor, k⟩
    else if d < twice then some ⟨floor + 1, k⟩
    else match tie with
      | .up => some ⟨floor + 1, k⟩
      | .even => some ⟨if floor % 2 = 0 then floor else floor + 1, k⟩
  else if lower then some ⟨floor, k⟩
  else if upper then some ⟨floor + 1, k⟩
  else none

/-- Tries `steps` grids, each ten times finer than the one before. -/
def search (i : Interval) (tie : Tie) : Nat → Int → Decimal
  | 0, k => ⟨i.value * tenTo (-k).toNat / (i.denominator * tenTo k.toNat), k⟩
  | steps + 1, k => (i.onGrid? tie k).getD (search i tie steps (k - 1))

end Interval

/-- The shortest decimal that reads back as the magnitude of the finite number `x`, the nearest to
it if there are several. The search starts at a power of ten that is not below the number; seventeen
digits always suffice. -/
def shortest (tie : Tie) (x : Float) : Decimal :=
  if significand x = 0 then ⟨0, 0⟩
  else
    let bits : Int := (significand x).log2 + 1 + exponent x
    (roundingInterval x).search tie 20 (bits * 30103 / 100000 + 1)

end TableQuery.Number
