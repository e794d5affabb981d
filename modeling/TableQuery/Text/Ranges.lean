/-
Sets of characters and maps between characters, given by ranges of code points.

A set lists inclusive ranges in ascending order that do not touch, which is what `Ranges.ofList` and
the combinations of sets give. A map lists runs: every `step`-th code point from `first` to `last`
goes to the code point `offset` places away, and all others stay.
-/

namespace TableQuery.Text

/-- Inclusive ranges of code points, ascending and disjoint. -/
abbrev Ranges := List (Nat × Nat)

/-- The code point lies in one of the ranges. -/
def Ranges.holds : Ranges → Nat → Bool
  | [], _ => false
  | (first, last) :: rest, n => if n < first then false else n ≤ last || Ranges.holds rest n

/-- The character lies in one of the ranges. -/
def Ranges.contains (ranges : Ranges) (c : Char) : Bool := ranges.holds c.toNat

/-! ### Combinations of sets -/

/-- Joins ranges that overlap or touch; they begin in ascending order, the first one with
`range`. -/
def Ranges.join (range : Nat × Nat) : List (Nat × Nat) → Ranges
  | [] => [range]
  | next :: rest =>
    if next.1 ≤ range.2 + 1 then join (range.1, max range.2 next.2) rest
    else range :: join next rest

/-- The set of all code points in ranges of any order. -/
def Ranges.ofList (ranges : List (Nat × Nat)) : Ranges :=
  match ranges.mergeSort fun a b => a.1 ≤ b.1 with
  | [] => []
  | range :: rest => join range rest

/-- The code points in either set. -/
def Ranges.union (a b : Ranges) : Ranges := ofList (a ++ b)

/-- The code points in both sets. -/
def Ranges.inter : Ranges → Ranges → Ranges
  | [], _ => []
  | _, [] => []
  | a :: as, b :: bs =>
    let first := max a.1 b.1
    let last := min a.2 b.2
    let rest := if a.2 < b.2 then inter as (b :: bs) else inter (a :: as) bs
    if first ≤ last then (first, last) :: rest else rest
termination_by as bs => as.length + bs.length

/-- The greatest code point. -/
def greatestCodePoint : Nat := 0x10ffff

/-- The characters of a range of code points: surrogates, which are no characters, are left out at
its ends. -/
def trimSurrogates (first last : Nat) : Ranges :=
  let first := if 0xd800 ≤ first && first < 0xe000 then 0xe000 else first
  let last := if 0xd800 ≤ last && last < 0xe000 then 0xd7ff else last
  if first ≤ last then [(first, last)] else []

/-- The characters from `first` on that are not in the set. -/
def Ranges.gaps (first : Nat) : Ranges → Ranges
  | [] => trimSurrogates first greatestCodePoint
  | (a, b) :: rest =>
    (if first < a then trimSurrogates first (a - 1) else []) ++ gaps (b + 1) rest

/-- The characters that are not in the set. -/
def Ranges.complement (ranges : Ranges) : Ranges := ranges.gaps 0

/-- The code points of the first set that are not in the second. -/
def Ranges.diff (a b : Ranges) : Ranges := a.inter b.complement

/-- A run of code points that move by the same offset. -/
structure Run where
  first : Nat
  last : Nat
  step : Nat
  offset : Int

/-- The code point is moved by the run. -/
def Run.covers (r : Run) (n : Nat) : Bool :=
  r.first ≤ n && n ≤ r.last && (n - r.first) % r.step == 0

/-- Moves a character by the run that covers it. -/
def moveBy (runs : List Run) (c : Char) : Char :=
  match runs.find? (·.covers c.toNat) with
  | some r => Char.ofNat (c.toNat + r.offset).toNat
  | none => c

/-- The run that moves everything back. -/
def Run.back (r : Run) : Run :=
  ⟨(r.first + r.offset).toNat, (r.last + r.offset).toNat, r.step, -r.offset⟩

/-- Where the code points from `first` to `last` that the run covers go. -/
def Run.images (r : Run) (first last : Nat) : List Nat :=
  let skipped := (max first r.first - r.first + (r.step - 1)) / r.step
  let least := r.first + skipped * r.step
  let count := (min last r.last + r.step - least) / r.step
  (List.range count).map fun i => ((least + i * r.step : Nat) + r.offset).toNat

/-- Where the runs move the code points of a set. -/
def Ranges.images (ranges : Ranges) (runs : List Run) : List Nat :=
  ranges.flatMap fun (first, last) => runs.flatMap fun r => r.images first last

end TableQuery.Text
