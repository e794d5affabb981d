/-
The total order of values, and the equality under which rows fall into one group.

`sortCompare` puts Null first, then values by kind, and what is not a number behind all numbers.
`sameKey` is the equality of grouping: Null falls together with Null, what is not a number with
itself, and zero with negative zero. `hashWords` lists the words by which a hash table would place
a value; values with the same key have the same words.
-/
import TableQuery.Value.Basic

namespace TableQuery

namespace Value

mutual

/-- The order in which values are sorted. -/
def sortCompare : Value → Value → Ordering
  | null, null => .eq
  | null, _ => .lt
  | _, null => .gt
  | boolean a, boolean b => compare a b
  | number x, number y => Number.sortCompare x y
  | string s, string t => compare s t
  | list xs, list ys => sortCompareAll xs ys
  | boolean _, _ => .lt
  | number _, boolean _ => .gt
  | number _, _ => .lt
  | string _, list _ => .lt
  | string _, _ => .gt
  | list _, _ => .gt

/-- Lists are ordered by their first difference, and a list before its continuations. -/
def sortCompareAll : List Value → List Value → Ordering
  | [], [] => .eq
  | [], _ :: _ => .lt
  | _ :: _, [] => .gt
  | x :: xs, y :: ys => (x.sortCompare y).then (sortCompareAll xs ys)

end

mutual

/-- The values fall into one group. -/
def sameKey : Value → Value → Bool
  | null, null => true
  | boolean a, boolean b => a == b
  | number x, number y => Number.canonicalBits x == Number.canonicalBits y
  | string s, string t => s == t
  | list xs, list ys => sameKeys xs ys
  | _, _ => false

/-- Tuples fall together when they have the same length and their components do. -/
def sameKeys : List Value → List Value → Bool
  | [], [] => true
  | x :: xs, y :: ys => x.sameKey y && sameKeys xs ys
  | _, _ => false

end

mutual

/-- The words that stand for a value in a hash: a tag and then the content, where the two zeros
share their words and so does all that is not a number. A text is its bytes, and then a word that is no
byte of any text. -/
def hashWords : Value → List Nat
  | null => [0]
  | boolean b => [1, b.toNat]
  | number x => [2, Number.canonicalBits x]
  | string s => 3 :: (s.toUTF8.data.toList.map UInt8.toNat ++ [0xff])
  | list xs => 4 :: xs.length :: hashWordsAll xs

/-- The words of a tuple, one component after the other. -/
def hashWordsAll : List Value → List Nat
  | [] => []
  | x :: xs => x.hashWords ++ hashWordsAll xs

end

end Value

end TableQuery
