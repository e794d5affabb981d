/-
The scalar functions `round`, `concat` and `split`.
-/
import TableQuery.Function.Basic
import TableQuery.Number.Fixed

namespace TableQuery.Function

/-- One half. -/
def half : Float := Number.ofRatio 1 2

/-- The most decimal places that `round` writes. -/
def greatestDigits : Float := Number.ofNat 100

/-- A number with a given count of decimal places, as text. -/
def roundTo (x digits : Float) : Except FunctionError Value :=
  if !Number.isWhole digits || (Number.isNegative digits && !Number.isZero digits) then
    .error (.digitsNotWhole digits)
  else if Number.compare? digits greatestDigits = some .gt then .error (.tooManyDigits digits)
  else .ok (.string (Number.fixedText (Number.wholeMagnitude digits) x))

/-- With one argument the nearest whole number, a half going up; with two the first one with as many
decimal places as the second says. -/
def round (args : List Value) : Except FunctionError Value :=
  match args with
  | [.null] => .ok .null
  | [.null, _] => .ok .null
  | [_, .null] => .ok .null
  | [.number x] => .ok (.number (Number.roundDown (x + half)))
  | [.number x, .number digits] => roundTo x digits
  | [.number _, other] => .error (.digitsMistyped other.kindName)
  | [other] => .error (.numberExpected "round" other.kindName)
  | [other, _] => .error (.numberExpected "round" other.kindName)
  | _ => .error (.argumentCount "round" "1 or 2" args.length)

/-- The texts of all arguments, one after the other; Null if one of them is Null. -/
def concat (args : List Value) : Except FunctionError Value :=
  if args.any Value.isNull then .ok .null
  else .ok (.string (String.join (args.map Value.display)))

/-- Cuts a text at every occurrence of a separator that is not empty, from left to right. `passing`
characters belong to the separator found last, and `piece` has been read since, last first. -/
def cut (separator : List Char) (passing : Nat) (piece : List Char) :
    List Char → List (List Char)
  | [] => [piece.reverse]
  | c :: rest =>
    match passing with
    | n + 1 => cut separator n piece rest
    | 0 =>
      if separator.isPrefixOf (c :: rest) then
        piece.reverse :: cut separator (separator.length - 1) [] rest
      else cut separator 0 (c :: piece) rest

/-- The pieces of a text between the occurrences of a separator. The empty separator stands around
every character. -/
def pieces (text separator : List Char) : List (List Char) :=
  if separator.isEmpty then [] :: text.map (fun c => [c]) ++ [[]]
  else cut separator 0 [] text

/-- The list of the pieces of a text between a separator. -/
def split (args : List Value) : Except FunctionError Value :=
  match args with
  | [.null, _] => .ok .null
  | [_, .null] => .ok .null
  | [.string s, .string separator] =>
    .ok (.list ((pieces s.toList separator.toList).map fun p => .string (String.ofList p)))
  | [a, b] => .error (.textsExpected "split" a.kindName b.kindName)
  | _ => .error (.argumentCount "split" "2" args.length)

end TableQuery.Function
