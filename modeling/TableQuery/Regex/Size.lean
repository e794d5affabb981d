/-
The size of the automaton of a regular expression.

A regular expression is read forward by one automaton and backward by another. Regular expressions
with an automaton of more than ten mebibytes are refused (`Regex.fits`). Groups are told apart in
the forward one only.
-/
import TableQuery.Regex.Basic
import TableQuery.Regex.SetSize

namespace TableQuery

/-! ### Choices of texts -/

/-- A tree of texts, by the branches out of its root, the last one first. The branches since the
last text that ends at the root make up a chunk. -/
inductive TextTree where
  | done
  /-- A text ends here. -/
  | ends (rest : TextTree)
  | branch (byte : Nat) (next rest : TextTree)

namespace TextTree

/-- The byte leads on within the last chunk. -/
def leads (byte : Nat) : TextTree → Bool
  | branch b _ rest => b == byte || rest.leads byte
  | _ => false

/-- No byte leads on. -/
def isLeaf : TextTree → Bool
  | done => true
  | ends rest => rest.isLeaf
  | branch .. => false

/-- Takes in a text. -/
def insert : List Nat → TextTree → TextTree
  | [], ends done => ends done
  | [], t => ends t
  | b :: bytes, branch c next rest =>
    if c == b then branch c (insert bytes next) rest
    else if rest.leads b then branch c next (insert (b :: bytes) rest)
    else branch b (insert bytes done) (branch c next rest)
  | b :: bytes, t => branch b (insert bytes done) t
termination_by bytes t => (bytes.length, sizeOf t)

/-- With the state of a chunk, if it is not empty, as an alternative. -/
def addChunk (branches : Nat) (s : AutomatonSize) : AutomatonSize :=
  match branches with
  | 0 => s
  | 1 => s.add 1 4
  | k => s.add 1 (8 * k + 4)

/-- The size with the states of a tree, of whose current chunk some branches have been seen. -/
def grow : TextTree → Nat → AutomatonSize → AutomatonSize
  | done, branches, s => (addChunk branches s).add 1
  | ends rest, branches, s => rest.grow 0 ((addChunk branches s).add 0 4)
  | branch _ next rest, branches, s =>
    rest.grow (branches + 1) (if next.isLeaf then s else next.grow 0 s)

end TextTree

namespace Regex

/-- The bytes of a text. -/
def bytes (text : List Char) : List Nat := text.flatMap fun c => Text.utf8Bytes c.toNat

/-- The texts, if there are several items and all of them are texts. -/
def texts? : List Regex → Option (List (List Char))
  | first :: second :: items => (first :: second :: items).mapM fun
    | literal text => some text
    | _ => none
  | _ => none

/-- The size with the states of a choice between texts. -/
def growTexts (backward : Bool) (texts : List (List Char)) (s : AutomatonSize) : AutomatonSize :=
  let tree := texts.foldl (fun t text =>
    t.insert (if backward then (bytes text).reverse else bytes text)) TextTree.done
  tree.grow 0 (s.add 1)

/-! ### All other forms -/

/-- The size with the states of a repetition. -/
def growTimes (grow : AutomatonSize → AutomatonSize) (consumes : Bool) (least : Nat)
    (most : Option Nat) (s : AutomatonSize) : AutomatonSize :=
  match least, most with
  | 0, none => if consumes then grow (s.add 1 8) else (grow s).add 3 16
  | n, none => (AutomatonSize.addTimes grow n s).add 1 8
  | 0, some 1 => (grow (s.add 1)).add 1 8
  | n, some m =>
    let s := if n = 0 then s.add 1 else AutomatonSize.addTimes grow n s
    if m ≤ n then s
    else AutomatonSize.addTimes (fun s => (grow (s.add 1)).add 0 8) (m - n) (s.add 1)

mutual

/-- The size with the states of a regular expression. -/
def grow (backward : Bool) : Regex → AutomatonSize → AutomatonSize
  | empty, s => s.add 1
  | literal text, s => s.add (bytes text).length
  | set chars, s => s.addSet backward chars
  | assertion _, s => s.add 1
  | repeated inner least most _, s =>
    growTimes (grow backward inner) (inner.leastLength.any (0 < ·)) least most s
  | group inner, s =>
    if backward then grow backward inner s else (grow backward inner (s.add 1)).add 1
  | sequence items, s => growAll backward items s
  | choice items, s =>
    match texts? items with
    | some texts => growTexts backward texts s
    | none => growAny backward 0 items s

/-- The size with the states of items in a row, which are read in the direction of the automaton. -/
def growAll (backward : Bool) : List Regex → AutomatonSize → AutomatonSize
  | [], s => s
  | r :: items, s =>
    if backward then grow backward r (growAll backward items s)
    else growAll backward items (grow backward r s)

/-- The size with the states of alternatives, behind some that have been seen. The states that part
and join them come after the second one. -/
def growAny (backward : Bool) (seen : Nat) : List Regex → AutomatonSize → AutomatonSize
  | [], s => s
  | r :: items, s =>
    let s := grow backward r s
    growAny backward (seen + 1) items
      (if seen = 0 then s else if seen = 1 then s.add 2 8 else s.add 0 4)

end

/-- The size of an automaton. Unless the match has to be at the end of the text that is read first,
states that skip characters come in front of it; the last state tells of the match. -/
def automatonSize (backward : Bool) (r : Regex) : AutomatonSize :=
  let anchored := if backward then r.endsWith .textEnd else r.startsWith .textStart
  let start : AutomatonSize := if anchored then ⟨1, 0⟩ else ⟨3, 16⟩
  (if backward then grow backward r start else (grow backward r (start.add 1)).add 1).add 1

/-! ### An estimate -/

mutual

/-- What both automatons take at most, in bytes. -/
def bound : Regex → Nat
  | empty => 32
  | literal text => 80 * (bytes text).length
  | set chars => 128 + 44 * chars.byteRows.flatten.length
  | assertion _ => 32
  | repeated inner least most _ =>
    (max least (most.getD (least + 1)) + 1) * (inner.bound + 40) + 128
  | group inner => inner.bound + 64
  | sequence items => boundAll items
  | choice items => boundAll items + 128

/-- What the automatons of several items take at most, each as an alternative. -/
def boundAll : List Regex → Nat
  | [] => 0
  | r :: items => r.bound + 8 + boundAll items

end

/-- Both automatons are small enough. They are left uncounted where the estimate tells. -/
def fits (r : Regex) : Bool :=
  r.bound + 512 ≤ AutomatonSize.limit ||
    (!(r.automatonSize false).exceeds && !(r.automatonSize true).exceeds)

end Regex

end TableQuery
