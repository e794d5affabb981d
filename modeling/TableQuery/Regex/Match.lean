/-
What regular expressions match.

Sets of places in a text are numbers whose binary digits tell the places. `Moves` is a regular
expression over one text: every set of characters is the set of the places in front of them, and
every condition the set of the places where it holds. `Moves.ends` gives, for a set of places, all
places where a match can end that starts at one of them. A text matches when a match starts anywhere
in it (`Regex.search`); how much a repetition prefers to take makes no difference to that.
-/
import TableQuery.Regex.Basic
import TableQuery.Text.Word

namespace TableQuery

/-- Places in a text. Binary digit `i` tells of the place behind `i` characters. -/
abbrev Places := Nat

/-- The places in front of the characters for which `p` holds, one character at a time. -/
def placesBeforeEach (p : Char → Bool) (text : List Char) : Places :=
  text.foldr (fun c places => 2 * places + (p c).toNat) 0

/-- The places in front of the characters for which `p` holds. They are put together from those of
sixty characters at a time, which fit into a machine word. -/
def placesBefore (p : Char → Bool) : List Char → Places
  | [] => 0
  | c :: rest =>
    placesBefore p (rest.drop 59) <<< 60 + placesBeforeEach p (c :: rest.take 59)
termination_by text => text.length
decreasing_by
  simp only [List.length_drop, List.length_cons]
  omega

theorem placesBeforeEach_append (p : Char → Bool) (a b : List Char) :
    placesBeforeEach p (a ++ b) = placesBeforeEach p b <<< a.length + placesBeforeEach p a := by
  induction a with
  | nil => simp [placesBeforeEach]
  | cons c a ih =>
    simp only [placesBeforeEach, List.cons_append, List.foldr_cons, List.length_cons,
      Nat.shiftLeft_succ] at ih ⊢
    rw [ih, Nat.mul_add, Nat.add_assoc]

/-- It makes no difference how many characters are taken at a time. -/
theorem placesBefore_eq (p : Char → Bool) (text : List Char) :
    placesBefore p text = placesBeforeEach p text := by
  fun_induction placesBefore p text with
  | case1 => rfl
  | case2 c rest ih =>
    rw [ih]
    have h := placesBeforeEach_append p (c :: rest.take 59) (rest.drop 59)
    rw [List.cons_append, List.take_append_drop] at h
    rw [h]
    by_cases hn : 59 ≤ rest.length
    · rw [List.length_cons, List.length_take_of_le hn]
    · rw [List.drop_eq_nil_of_le (by omega)]
      simp [placesBeforeEach]

/-- The places up to that behind `n` characters. -/
def placesUpTo (n : Nat) : Places := (1 <<< (n + 1)) - 1

/-- The places where a condition holds. -/
def Assertion.places (a : Assertion) (text : List Char) : Places :=
  match a with
  | textStart => 1
  | textEnd => 1 <<< text.length
  | lineStart => 1 ||| placesBefore (· == '\n') text <<< 1
  | lineEnd => placesBefore (· == '\n') text ||| 1 <<< text.length
  | wordBoundary =>
    let after := placesBefore Text.isWordChar text
    after ^^^ after <<< 1
  | noWordBoundary =>
    let after := placesBefore Text.isWordChar text
    placesUpTo text.length ^^^ (after ^^^ after <<< 1)
  | wordStart =>
    let after := placesBefore Text.isWordChar text
    after ^^^ (after &&& after <<< 1)
  | wordEnd =>
    let after := placesBefore Text.isWordChar text
    after <<< 1 ^^^ (after &&& after <<< 1)

/-- A regular expression over one text. -/
inductive Moves where
  | stay
  /-- One character on from one of these places. -/
  | step (places : Places)
  /-- No move, but only at one of these places. -/
  | check (places : Places)
  | seq (first second : Moves)
  | alt (first second : Moves)
  | nowhere
  | repeated (inner : Moves) (least : Nat) (most : Option Nat)

namespace Moves

/-- The places that exactly `rounds` moves reach. Once a move changes nothing, no later one does. -/
def advance (move : Places → Places) : Nat → Places → Places
  | 0, places => places
  | rounds + 1, places =>
    let reached := move places
    if reached = places then places else advance move rounds reached

/-- The places reached by any number of moves that each go one character on from one of the places
`starts`. Adding a place to the places of a run of `starts` behind it carries over to the end of the
run, and turns all digits up to there. -/
def run (starts places : Places) : Places :=
  places ||| ((starts + (places &&& starts)) ^^^ starts)

theorem testBit_run (starts places : Places) {i n : Nat} (h : i < n) :
    (run starts places).testBit i =
      (places.testBit i ||
        BitVec.carry i (BitVec.ofNat n starts) (BitVec.ofNat n (places &&& starts)) false) := by
  have hs := BitVec.getLsbD_add h (BitVec.ofNat n starts) (BitVec.ofNat n (places &&& starts))
  rw [← BitVec.ofNat_add] at hs
  simp only [BitVec.getLsbD_ofNat, h, decide_true, Bool.true_and, Nat.testBit_and] at hs
  rw [run, Nat.testBit_or, Nat.testBit_xor, hs]
  cases places.testBit i <;> cases starts.testBit i <;> simp

theorem testBit_run_zero (starts places : Places) :
    (run starts places).testBit 0 = places.testBit 0 := by
  simp [testBit_run starts places Nat.one_pos]

/-- A place is reached if a run starts there, or if the place in front of it is reached and a move
goes on from that. -/
theorem testBit_run_succ (starts places : Places) (i : Nat) :
    (run starts places).testBit (i + 1) =
      (places.testBit (i + 1) || (starts.testBit i && (run starts places).testBit i)) := by
  have h : i < i + 2 := by omega
  rw [testBit_run starts places (Nat.lt_add_one (i + 1)), testBit_run starts places h,
    BitVec.carry_succ]
  simp only [BitVec.getLsbD_ofNat, h, decide_true, Bool.true_and, Nat.testBit_and]
  cases places.testBit i <;> cases starts.testBit i <;> simp [Bool.atLeastTwo]

/-- The places known, and those reached in at most `rounds` moves from the last of them. -/
def spread (move : Places → Places) : Nat → Places → Places → Places
  | 0, known, _ => known
  | rounds + 1, known, last =>
    let reached := known ||| move last
    if reached = known then known else spread move rounds reached (reached ^^^ known)

/-- The places where moves end that start at one of the given places, in a text of given length. -/
def ends (length : Nat) : Moves → Places → Places
  | stay, places => places
  | step starts, places => (places &&& starts) <<< 1
  | check allowed, places => places &&& allowed
  | seq first second, places => second.ends length (first.ends length places)
  | alt first second, places => first.ends length places ||| second.ends length places
  | nowhere, _ => 0
  | repeated inner least most, places =>
    let reached := advance (inner.ends length) least places
    match inner, most with
    | step starts, none => run starts reached
    | _, none => spread (inner.ends length) length reached reached
    | _, some k => spread (inner.ends length) (min (k - least) length) reached reached

end Moves

namespace Regex

mutual

/-- The moves over a text. -/
def moves (text : List Char) : Regex → Moves
  | empty => .stay
  | literal cs => cs.foldr (fun c m => .seq (.step (placesBefore (· == c) text)) m) .stay
  | set chars => .step (placesBefore chars.contains text)
  | assertion a => .check (a.places text)
  | repeated inner least most _ => .repeated (inner.moves text) least most
  | group inner => inner.moves text
  | sequence items => movesOfAll text items
  | choice items => movesOfAny text items

/-- The moves of all items one after the other. -/
def movesOfAll (text : List Char) : List Regex → Moves
  | [] => .stay
  | r :: items => .seq (r.moves text) (movesOfAll text items)

/-- The moves of any of the items. -/
def movesOfAny (text : List Char) : List Regex → Moves
  | [] => .nowhere
  | r :: items => .alt (r.moves text) (movesOfAny text items)

end

/-- A match starts somewhere in the text. -/
def search (r : Regex) (text : List Char) : Bool :=
  (r.moves text).ends text.length (placesUpTo text.length) != 0

end Regex

end TableQuery
