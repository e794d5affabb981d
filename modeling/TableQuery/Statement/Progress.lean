/-
Reading from the front of a list of tokens.

What is read comes with the tokens that are left and the number of tokens that it has taken at
least, so that every reader that goes on behind something it has read gets a shorter list.
-/
import TableQuery.Statement.Error

namespace TableQuery

/-- Something read from tokens, with the tokens that are left. -/
structure Parsed (α : Type) (least : Nat) (ts : List Token) where
  value : α
  rest : List Token
  /-- What is left is the end of what there was. -/
  suffix : rest <:+ ts
  /-- At least `least` tokens have been taken. -/
  taken : rest.length + least ≤ ts.length

/-- Turns what has been read into something else. -/
def Parsed.map {α β : Type} {n : Nat} {ts : List Token} (f : α → β) (r : Parsed α n ts) :
    Parsed β n ts :=
  ⟨f r.value, r.rest, r.suffix, r.taken⟩

/-- Something read from one token. -/
def Parsed.behindOne {α : Type} {t : Token} {rest : List Token} (a : α) :
    Parsed α 1 (t :: rest) :=
  ⟨a, rest, List.suffix_cons t rest, Nat.le_refl _⟩

/-- Something read from two tokens. -/
def Parsed.behindTwo {α : Type} {t u : Token} {rest : List Token} (a : α) :
    Parsed α 1 (t :: u :: rest) :=
  ⟨a, rest, (List.suffix_cons u rest).trans (List.suffix_cons t _),
    by simp only [List.length_cons]; omega⟩

/-- The counts that one token satisfies. -/
class AtMostOne (n : Nat) : Prop where
  le_one : n ≤ 1

instance : AtMostOne 0 := ⟨Nat.zero_le 1⟩

instance : AtMostOne 1 := ⟨Nat.le_refl 1⟩

/-- A reader's answer. -/
abbrev Parse (α : Type) (least : Nat) (ts : List Token) := Except ParseError (Parsed α least ts)

namespace Parse

variable {α β : Type} {k m n : Nat} {rest ts : List Token}

/-- Reads nothing. -/
def done (a : α) : Parse α 0 ts := .ok ⟨a, ts, List.suffix_refl ts, Nat.le_refl _⟩

/-- Reads behind a token that has been taken. -/
def behind [AtMostOne k] (suffix : rest <:+ ts) (taken : rest.length + 1 ≤ ts.length)
    (p : Parse β n rest) : Parse β k ts :=
  match p with
  | .error e => .error e
  | .ok ⟨b, rest', suffix', taken'⟩ =>
    .ok ⟨b, rest', suffix'.trans suffix, by have h := AtMostOne.le_one (n := k); omega⟩

/-- Goes on behind what has been read, of which alone the tokens are counted. -/
def andThen (p : Parse α m ts)
    (f : (a : α) → (rest : List Token) → rest.length + m ≤ ts.length → Parse β n rest) :
    Parse β m ts :=
  match p with
  | .error e => .error e
  | .ok ⟨a, rest, suffix, taken⟩ =>
    match f a rest taken with
    | .error e => .error e
    | .ok ⟨b, rest', suffix', taken'⟩ => .ok ⟨b, rest', suffix'.trans suffix, by omega⟩

/-- Goes on behind what has been read, and counts the tokens of what follows alone. -/
def before (p : Parse α m ts)
    (f : (a : α) → (rest : List Token) → rest.length + m ≤ ts.length → Parse β n rest) :
    Parse β n ts :=
  match p with
  | .error e => .error e
  | .ok ⟨a, rest, suffix, taken⟩ =>
    match f a rest taken with
    | .error e => .error e
    | .ok ⟨b, rest', suffix', taken'⟩ => .ok ⟨b, rest', suffix'.trans suffix, by omega⟩

/-- Forgets that a token has been taken. -/
def weaken (p : Parse α m ts) : Parse α 0 ts :=
  match p with
  | .error e => .error e
  | .ok ⟨a, rest, suffix, taken⟩ => .ok ⟨a, rest, suffix, by omega⟩

/-- Turns what has been read into something else. -/
def map (f : α → β) (p : Parse α m ts) : Parse β m ts :=
  match p with
  | .error e => .error e
  | .ok r => .ok (r.map f)

end Parse

namespace Token

variable {α : Type} {n : Nat}

/-- The token in front; behind the last one the text has ended. -/
def front : List Token → Token
  | [] => eof
  | t :: _ => t

/-- Takes the token in front if `f` has a use for it. -/
def accept? (f : Token → Option α) (ts : List Token) : Option (Parsed α 1 ts) :=
  match ts with
  | [] => none
  | t :: _ => (f t).map Parsed.behindOne

/-- Takes the token in front if it is the given one. -/
def acceptToken? (t : Token) (ts : List Token) : Option (Parsed Unit 1 ts) :=
  accept? (fun u => if u = t then some () else none) ts

/-- Takes the token in front if it is the given word in any letter case. -/
def acceptWord? (word : String) (ts : List Token) : Option (Parsed Unit 1 ts) :=
  accept? (fun u => if u.isWord word then some () else none) ts

/-- The name that a token is. -/
def name? : Token → Option String
  | identifier name => some name
  | quoted name => some name
  | _ => none

/-- Takes what had to come next. -/
def orElse (wanted : Wanted) (ts : List Token) (p : Option (Parsed α 1 ts)) : Parse α 1 ts :=
  match p with
  | some r => .ok r
  | none => .error (.expected wanted (front ts))

/-- Takes the given token. -/
def expect (t : Token) (ts : List Token) : Parse Unit 1 ts :=
  orElse (.token t) ts (acceptToken? t ts)

/-- Takes the given word in any letter case. -/
def expectWord (word : String) (ts : List Token) : Parse Unit 1 ts :=
  orElse (.word word) ts (acceptWord? word ts)

/-- Takes a name. -/
def expectName (ts : List Token) : Parse String 1 ts := orElse .name ts (accept? name? ts)

/-- What stands behind a keyword, or nothing without the keyword. -/
def optional (k : Keyword) (read : (ts : List Token) → Parse α n ts) (ts : List Token) :
    Parse (Option α) 0 ts :=
  match acceptToken? (keyword k) ts with
  | some ⟨_, rest, suffix, taken⟩ => .behind suffix taken ((read rest).map some)
  | none => .done none

/-- The value of digits below `2 ^ 64`, to which `n` is the value of those before them. The first
character at fault decides about the error. -/
def countFrom (n : Nat) : List Char → Except CountFault Nat
  | [] => .ok n
  | c :: rest =>
    if !c.isDigit then .error .notADigit
    else
      let n := 10 * n + (c.toNat - '0'.toNat)
      if UInt64.size ≤ n then .error .tooLarge else countFrom n rest

/-- The digits that a token is. -/
def digits? : Token → Option String
  | number digits => some digits
  | _ => none

/-- Takes a count. -/
def expectCount (ts : List Token) : Parse Nat 1 ts :=
  (orElse .count ts (accept? digits? ts)).andThen fun digits _ _ =>
    match countFrom 0 digits.toList with
    | .ok n => .done n
    | .error e => .error (.notACount digits e)

end Token

end TableQuery
