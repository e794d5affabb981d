/-
The size of the part of an automaton that reads one character of a set.

An automaton reads bytes. A state takes 32 of them, and besides a transition out of a state with
several takes eight and an alternative four. Read forward, the characters of a set share the states
in front of their common starts and behind their common ends, the latter as far as a table of ten
thousand places remembers them. Read backward, they share the states behind their common starts, as
far as a table of one thousand places does.
-/
import TableQuery.Text.Utf8
import Std.Data.HashMap

namespace TableQuery

/-- The size of an automaton: its states, and what they take in addition. -/
structure AutomatonSize where
  states : Nat := 0
  extra : Nat := 0
  deriving Repr, DecidableEq

namespace AutomatonSize

/-- What the automaton takes in bytes. -/
def bytes (s : AutomatonSize) : Nat := 32 * s.states + s.extra

/-- The most bytes that an automaton may take. -/
def limit : Nat := 10 * 1024 * 1024

/-- The automaton takes too much. -/
def exceeds (s : AutomatonSize) : Bool := limit < s.bytes

/-- With further states that take something in addition. -/
def add (s : AutomatonSize) (states : Nat) (extra : Nat := 0) : AutomatonSize :=
  ⟨s.states + states, s.extra + extra⟩

/-- Grows `n` times, until the automaton takes too much. -/
def addTimes (grow : AutomatonSize → AutomatonSize) : Nat → AutomatonSize → AutomatonSize
  | 0, s => s
  | n + 1, s => if s.exceeds then s else addTimes grow n (grow s)

end AutomatonSize

/-! ### Sets of characters -/

/-- A transition: the bytes that it takes, and the state it leads to. -/
structure ByteMove where
  bytes : Text.ByteRange
  target : Nat
  deriving BEq

/-- One more number in a hash of 64 bits. -/
def hashStep (h : UInt64) (n : Nat) : UInt64 := (h ^^^ n.toUInt64) * 1099511628211

/-- The hash of no numbers. -/
def hashStart : UInt64 := 14695981039346656037

/-- The place of numbers in a table with `size` places. -/
def hashPlace (numbers : List Nat) (size : Nat) : Nat :=
  (numbers.foldl hashStep hashStart).toNat % size

/-- A table that remembers the state for a key. Keys with the same place push each other out. -/
abbrev StateTable (Key : Type) := Std.HashMap Nat (Key × Nat)

/-- The state that a table remembers. -/
def StateTable.find? {Key : Type} [BEq Key] (table : StateTable Key) (place : Nat) (key : Key) :
    Option Nat :=
  match table.get? place with
  | some (k, state) => if k == key then some state else none
  | none => none

namespace ForwardSet

/-- A state that is not finished: the transitions that are, last first, and the bytes of the last
one, whose target is not known yet. -/
structure OpenState where
  moves : List ByteMove := []
  last : Option Text.ByteRange := none

/-- The transitions once the target of the last one is known. -/
def OpenState.finish (s : OpenState) (target : Nat) : List ByteMove :=
  match s.last with
  | some bytes => ⟨bytes, target⟩ :: s.moves
  | none => s.moves

/-- The states of a set while its rows of bytes are read in order: those on the way of the last row
are open, from the first on, and end in the state `target`. -/
structure Build where
  size : AutomatonSize
  table : StateTable (List ByteMove) := {}
  way : List OpenState := [{}]
  target : Nat

/-- The state with the given transitions, an earlier one if it is remembered. -/
def Build.state (b : Build) (moves : List ByteMove) : Nat × Build :=
  let place := hashPlace
    (moves.reverse.flatMap fun m => [m.bytes.1, m.bytes.2, m.target]) 10000
  match b.table.find? place moves with
  | some state => (state, b)
  | none =>
    (b.size.states, { b with
      size := b.size.add 1 (8 * moves.length)
      table := b.table.insert place (moves, b.size.states) })

/-- Finishes the open states behind the first `n + 1`, and the last transition of the state in front
of them. -/
def Build.finishBehind (b : Build) (n : Nat) : Build :=
  let (target, b') := (b.way.drop (n + 1)).foldr
    (fun s (target, b) => b.state (s.finish target)) (b.target, b)
  { b' with way := (b.way.take (n + 1)).mapIdx fun i s =>
      if i = n then ⟨s.finish target, none⟩ else s }

/-- Takes in the next row. -/
def Build.add (b : Build) (row : List Text.ByteRange) : Build :=
  let common := ((row.zip b.way).takeWhile fun (bytes, s) => s.last == some bytes).length
  let b := b.finishBehind common
  let way := b.way.mapIdx fun i s =>
    if i = common then { s with last := row[i]? } else s
  { b with way := way ++ (row.drop (common + 1)).map fun bytes => ⟨[], some bytes⟩ }

/-- The size with the states of a set. -/
def grow (rows : List (List Text.ByteRange)) (s : AutomatonSize) : AutomatonSize :=
  let b : Build := { size := s.add 1, target := s.states }
  let b := (rows.foldl Build.add b).finishBehind 0
  match b.way with
  | first :: _ => (b.state first.moves).2.size
  | [] => b.size

end ForwardSet

namespace BackwardSet

/-- The states of a set while its rows of bytes are read. -/
structure Build where
  size : AutomatonSize
  table : StateTable (Nat × Text.ByteRange) := {}

/-- A state that takes some bytes and leads to another state. -/
def Build.state (b : Build) (target : Nat) (bytes : Text.ByteRange) : Nat × Build :=
  let place := hashPlace [target, bytes.1, bytes.2] 1000
  match b.table.find? place (target, bytes) with
  | some state => (state, b)
  | none =>
    (b.size.states, {
      size := b.size.add 1
      table := b.table.insert place ((target, bytes), b.size.states) })

/-- Takes in a row, whose first bytes lead to the state `target`. -/
def Build.add (target : Nat) (b : Build) (row : List Text.ByteRange) : Build :=
  let b := (row.foldl (fun (target, b) bytes => b.state target bytes) (target, b)).2
  { b with size := b.size.add 0 4 }

/-- The size with the states of a set. -/
def grow (rows : List (List Text.ByteRange)) (s : AutomatonSize) : AutomatonSize :=
  (rows.foldl (Build.add (s.states + 1)) ⟨s.add 2, {}⟩).size

end BackwardSet

/-- The set holds ASCII characters only. -/
def Text.Ranges.isAscii (chars : Text.Ranges) : Bool := chars.all fun r => r.2 < 0x80

/-- The size with the states of a set of characters. -/
def AutomatonSize.addSet (backward : Bool) (chars : Text.Ranges) (s : AutomatonSize) :
    AutomatonSize :=
  if chars.isAscii then s.add 2 (8 * chars.length)
  else if backward then BackwardSet.grow chars.byteRows s
  else ForwardSet.grow chars.byteRows s

end TableQuery
