/-
Regular expressions.

A regular expression is built by `ofChars`, `times`, `concat` and `choose`, which write it in its
simplest form: no sequence inside a sequence and no choice inside a choice, texts joined to one
text, characters to choose from joined to one set, and what all choices begin with taken out in
front of them. What a regular expression matches does not depend on the form, but its size does.
-/
import TableQuery.Text.Utf8

namespace TableQuery

/-- Conditions on a place in a text. -/
inductive Assertion where
  | textStart
  | textEnd
  | lineStart
  | lineEnd
  | wordBoundary
  | noWordBoundary
  | wordStart
  | wordEnd
  deriving Repr, DecidableEq

/-- Regular expressions. -/
inductive Regex where
  | empty
  | literal (text : List Char)
  /-- One character of a set. -/
  | set (chars : Text.Ranges)
  | assertion (a : Assertion)
  /-- From `least` to `most` times in a row, without bound if there is no `most`; `lazily` prefers
  few of them. -/
  | repeated (inner : Regex) (least : Nat) (most : Option Nat) (lazily : Bool)
  /-- A group whose place in the text can be told. -/
  | group (inner : Regex)
  | sequence (items : List Regex)
  | choice (items : List Regex)

namespace Regex

/-! ### What is known beforehand about what is matched -/

/-- The sum of two lengths that may be unknown. -/
def addLengths (a b : Option Nat) : Option Nat := a.bind fun m => b.map (m + ·)

mutual

/-- The least count of bytes that are matched; nothing is matched by the empty set. -/
def leastLength : Regex → Option Nat
  | empty => some 0
  | literal text => some (text.flatMap fun c => Text.utf8Bytes c.toNat).length
  | set chars => chars.head?.map fun r => (Text.utf8Bytes r.1).length
  | assertion _ => some 0
  | repeated inner least _ _ => inner.leastLength.map (least * ·)
  | group inner => inner.leastLength
  | sequence items => leastLengthOfAll items
  | choice items => leastLengthOfAny items

/-- The least count of bytes that all items match one after the other. -/
def leastLengthOfAll : List Regex → Option Nat
  | [] => some 0
  | r :: items => addLengths r.leastLength (leastLengthOfAll items)

/-- The least count of bytes that one of the items matches, if each of them has a least count. -/
def leastLengthOfAny : List Regex → Option Nat
  | [] => none
  | [r] => r.leastLength
  | r :: items => r.leastLength.bind fun m => (leastLengthOfAny items).map (min m)

end

mutual

/-- The greatest count of bytes that are matched, if there is one. -/
def mostLength : Regex → Option Nat
  | empty => some 0
  | literal text => some (text.flatMap fun c => Text.utf8Bytes c.toNat).length
  | set chars => chars.getLast?.map fun r => (Text.utf8Bytes r.2).length
  | assertion _ => some 0
  | repeated inner _ most _ => most.bind fun k => inner.mostLength.map (k * ·)
  | group inner => inner.mostLength
  | sequence items => mostLengthOfAll items
  | choice items => mostLengthOfAny items

/-- The greatest count of bytes that all items match one after the other. -/
def mostLengthOfAll : List Regex → Option Nat
  | [] => some 0
  | r :: items => addLengths r.mostLength (mostLengthOfAll items)

/-- The greatest count of bytes that one of the items matches, if each of them has a greatest
count. -/
def mostLengthOfAny : List Regex → Option Nat
  | [] => none
  | [r] => r.mostLength
  | r :: items => r.mostLength.bind fun m => (mostLengthOfAny items).map (max m)

end

mutual

/-- Every match satisfies the condition at its start, as far as the form tells. -/
def startsWith (a : Assertion) : Regex → Bool
  | assertion b => a == b
  | repeated inner least _ _ => 0 < least && inner.startsWith a
  | group inner => inner.startsWith a
  | sequence items => someStartsWith a items
  | choice items => allStartWith a items
  | _ => false

/-- One of the items up to the first that may match characters starts with the condition. -/
def someStartsWith (a : Assertion) : List Regex → Bool
  | [] => false
  | r :: items => r.startsWith a || (r.mostLength == some 0 && someStartsWith a items)

/-- All of the items start with the condition. -/
def allStartWith (a : Assertion) : List Regex → Bool
  | [] => true
  | r :: items => r.startsWith a && allStartWith a items

end

mutual

/-- Every match satisfies the condition at its end, as far as the form tells. -/
def endsWith (a : Assertion) : Regex → Bool
  | assertion b => a == b
  | repeated inner least _ _ => 0 < least && inner.endsWith a
  | group inner => inner.endsWith a
  | sequence items => someEndsWith a items
  | choice items => allEndWith a items
  | _ => false

/-- One of the items from the last that may match characters on ends with the condition. -/
def someEndsWith (a : Assertion) : List Regex → Bool
  | [] => false
  | r :: items =>
    someEndsWith a items || (mostLengthOfAll items == some 0 && r.endsWith a)

/-- All of the items end with the condition. -/
def allEndWith (a : Assertion) : List Regex → Bool
  | [] => true
  | r :: items => r.endsWith a && allEndWith a items

end

/-! ### Equal forms -/

mutual

/-- The forms are the same. No group is the same as another one. -/
def same : Regex → Regex → Bool
  | empty, empty => true
  | literal s, literal t => s == t
  | set a, set b => a == b
  | assertion a, assertion b => a == b
  | repeated r least most lazily, repeated r' least' most' lazily' =>
    least == least' && most == most' && lazily == lazily' && r.same r'
  | sequence rs, sequence rs' => sameAll rs rs'
  | choice rs, choice rs' => sameAll rs rs'
  | _, _ => false

/-- The forms of all items are the same. -/
def sameAll : List Regex → List Regex → Bool
  | [], [] => true
  | r :: rs, r' :: rs' => r.same r' && sameAll rs rs'
  | _, _ => false

end

/-! ### Building -/

/-- One character of a set. -/
def ofChars (chars : Text.Ranges) : Regex :=
  match chars with
  | [(first, last)] => if first = last then literal [Char.ofNat first] else set chars
  | _ => set chars

/-- From `least` to `most` times in a row. What matches no characters is repeated at most once. -/
def times (inner : Regex) (least : Nat) (most : Option Nat) (lazily : Bool) : Regex :=
  let (least, most) := if inner.mostLength = some 0 then (min least 1, some (min (most.getD 1) 1))
    else (least, most)
  match least, most with
  | 0, some 0 => empty
  | 1, some 1 => inner
  | least, most => repeated inner least most lazily

/-- The items of a sequence, or the item itself. -/
def items : Regex → List Regex
  | empty => []
  | sequence rs => rs
  | r => [r]

/-- Puts an item in front of a sequence; two texts become one. -/
def prepend : Regex → List Regex → List Regex
  | literal s, literal t :: rest => literal (s ++ t) :: rest
  | r, rest => r :: rest

/-- One after the other. -/
def concat (rs : List Regex) : Regex :=
  match (rs.flatMap items).foldr prepend [] with
  | [] => empty
  | [r] => r
  | items => sequence items

/-- The choices of a choice, or the item itself. -/
def choices : Regex → List Regex
  | choice rs => rs
  | r => [r]

/-- The one character that a text consists of. -/
def singleChar? : Regex → Option Char
  | literal [c] => some c
  | _ => none

/-- The characters of a set. -/
def chars? : Regex → Option Text.Ranges
  | set chars => some chars
  | _ => none

/-- How many items are the same at the start of two sequences. -/
def commonLength : List Regex → List Regex → Nat
  | r :: rs, r' :: rs' => if r.same r' then commonLength rs rs' + 1 else 0
  | _, _ => 0

/-- The items of a sequence. -/
def sequence? : Regex → Option (List Regex)
  | sequence rs => some rs
  | _ => none

/-- What sequences begin with in common, and what is left of each, if they are all sequences and
begin with anything in common. -/
def commonStart? (rs : List Regex) : Option (List Regex × List (List Regex)) :=
  match rs.mapM sequence? with
  | some (first :: rest) =>
    let n := (rest.map (commonLength first)).foldl min first.length
    if n = 0 then none else some (first.take n, (first :: rest).map (List.drop n))
  | _ => none

/-- One of several, where at most `fuel` times something common is taken out in front. -/
def chooseWithin (fuel : Nat) (rs : List Regex) : Regex :=
  match rs.flatMap choices with
  | [] => set []
  | [r] => r
  | rs =>
    match rs.mapM singleChar?, rs.mapM chars? with
    | some cs, _ => ofChars (.ofList (cs.map fun c => (c.toNat, c.toNat)))
    | none, some sets => ofChars (.ofList sets.flatten)
    | none, none =>
      match fuel, commonStart? rs with
      | fuel + 1, some (start, ends) => concat (start ++ [chooseWithin fuel (ends.map concat)])
      | _, _ => choice rs

mutual

/-- The count of parts. -/
def parts : Regex → Nat
  | repeated inner _ _ _ => inner.parts + 1
  | group inner => inner.parts + 1
  | sequence items => partsOfAll items + 1
  | choice items => partsOfAll items + 1
  | _ => 1

/-- The count of parts of all items. -/
def partsOfAll : List Regex → Nat
  | [] => 0
  | r :: items => r.parts + partsOfAll items

end

/-- One of several. -/
def choose (rs : List Regex) : Regex := chooseWithin (partsOfAll rs) rs

end Regex

end TableQuery
