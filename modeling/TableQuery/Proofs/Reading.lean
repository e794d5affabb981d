/-
What readers give.

`Parse.Gives p a rest` says that a reader gives `a` and leaves the tokens `rest`. It goes through the
ways in which readers are put together, and through the levels of an expression:

* `Token.continues?`, `Level.Stops` — the tokens that a level goes on with behind an operand;
* `Expr.continueAt` — how it goes on;
* `Expr.gives_read_of_tighter` — what stands on a tighter level stands on a looser one.
-/
import TableQuery.Expr.Window

namespace TableQuery

namespace Parse

variable {α β : Type} {k m n : Nat} {rest rest' ts : List Token}

/-- The reader gives `a` and leaves `rest`. -/
def Gives (p : Parse α n ts) (a : α) (rest : List Token) : Prop :=
  ∃ suffix taken, p = .ok ⟨a, rest, suffix, taken⟩

theorem gives_ok (r : Parsed α n ts) : Gives (.ok r) r.value r.rest := ⟨r.suffix, r.taken, rfl⟩

theorem gives_done (a : α) : (done a : Parse α 0 ts).Gives a ts := gives_ok _

theorem Gives.unique {p : Parse α n ts} {a b : α} (h : p.Gives a rest) (h' : p.Gives b rest') :
    a = b ∧ rest = rest' := by
  obtain ⟨_, _, rfl⟩ := h
  obtain ⟨_, _, h⟩ := h'
  cases h
  exact ⟨rfl, rfl⟩

theorem Gives.behind [AtMostOne k] {p : Parse β n rest} {b : β} (h : p.Gives b rest')
    (suffix : rest <:+ ts) (taken : rest.length + 1 ≤ ts.length) :
    (Parse.behind suffix taken p : Parse β k ts).Gives b rest' := by
  obtain ⟨_, _, rfl⟩ := h
  exact gives_ok _

theorem Gives.next [AtMostOne k] {t : Token} {p : Parse β n rest} {b : β} (h : p.Gives b rest') :
    (Parse.behind (List.suffix_cons t rest) (Nat.le_refl _) p : Parse β k (t :: rest)).Gives b
      rest' :=
  h.behind _ _

theorem Gives.andThen {p : Parse α m ts} {a : α} {b : β}
    {f : (a : α) → (rest : List Token) → rest.length + m ≤ ts.length → Parse β n rest}
    (h : p.Gives a rest) (hf : ∀ taken, (f a rest taken).Gives b rest') :
    (p.andThen f).Gives b rest' := by
  obtain ⟨_, taken, rfl⟩ := h
  obtain ⟨_, _, hf⟩ := hf taken
  rw [Parse.andThen]
  simp only [hf]
  exact gives_ok _

theorem Gives.before {p : Parse α m ts} {a : α} {b : β}
    {f : (a : α) → (rest : List Token) → rest.length + m ≤ ts.length → Parse β n rest}
    (h : p.Gives a rest) (hf : ∀ taken, (f a rest taken).Gives b rest') :
    (p.before f).Gives b rest' := by
  obtain ⟨_, taken, rfl⟩ := h
  obtain ⟨_, _, hf⟩ := hf taken
  rw [Parse.before]
  simp only [hf]
  exact gives_ok _

theorem Gives.weaken {p : Parse α m ts} {a : α} (h : p.Gives a rest) : p.weaken.Gives a rest := by
  obtain ⟨_, _, rfl⟩ := h
  exact gives_ok _

theorem Gives.map {p : Parse α m ts} {a : α} (h : p.Gives a rest) (f : α → β) :
    (p.map f).Gives (f a) rest := by
  obtain ⟨_, _, rfl⟩ := h
  exact gives_ok _

end Parse

namespace Token

variable {α : Type} {t : Token} {ts : List Token}

theorem accept?_cons (f : Token → Option α) (t : Token) (ts : List Token) :
    accept? f (t :: ts) = (f t).map Parsed.behindOne := rfl

theorem accept?_eq_none {f : Token → Option α} (h : f (front ts) = none) : accept? f ts = none := by
  cases ts with
  | nil => rfl
  | cons t ts =>
    rw [accept?_cons, show f t = none from h]
    rfl

@[simp] theorem acceptToken?_self (t : Token) (ts : List Token) :
    acceptToken? t (t :: ts) = some (.behindOne ()) := by
  rw [acceptToken?, accept?_cons, if_pos rfl]
  rfl

theorem acceptToken?_of_ne (h : front ts ≠ t) : acceptToken? t ts = none :=
  accept?_eq_none (if_neg h)

theorem acceptWord?_cons {word : String} (h : t.isWord word = true) :
    acceptWord? word (t :: ts) = some (.behindOne ()) := by
  rw [acceptWord?, accept?_cons, if_pos h]
  rfl

theorem acceptWord?_eq_none {word : String} (h : (front ts).isWord word = false) :
    acceptWord? word ts = none :=
  accept?_eq_none (if_neg (by rw [h]; exact Bool.false_ne_true))

theorem gives_expect (t : Token) (ts : List Token) : (expect t (t :: ts)).Gives () ts := by
  rw [expect, acceptToken?_self]
  exact Parse.gives_ok _

theorem gives_expectWord {word : String} (h : t.isWord word = true) :
    (expectWord word (t :: ts)).Gives () ts := by
  rw [expectWord, acceptWord?_cons h]
  exact Parse.gives_ok _

theorem gives_expectName {name : String} (h : t.name? = some name) :
    (expectName (t :: ts)).Gives name ts := by
  rw [expectName, accept?_cons, h]
  exact Parse.gives_ok _

end Token

/-! ### Levels -/

/-- The level whose readers go on behind an operand when the token follows. A field goes on with a
point, and a name with the arguments of a call. -/
def Token.continues? : Token → Option Level
  | .sign .dot => some .primary
  | .sign .leftParen => some .primary
  | .sign .leftBracket => some .indexing
  | .sign .star => some .multiplication
  | .sign .slash => some .multiplication
  | .sign .percent => some .multiplication
  | .sign .plus => some .addition
  | .sign .minus => some .addition
  | .sign .equal => some .comparison
  | .sign .notEqual => some .comparison
  | .sign .less => some .comparison
  | .sign .greater => some .comparison
  | .sign .lessEqual => some .comparison
  | .sign .greaterEqual => some .comparison
  | .keyword .is => some .comparison
  | .keyword .not => some .comparison
  | .keyword .«in» => some .comparison
  | .keyword .like => some .comparison
  | .keyword .rlike => some .comparison
  | .keyword .and => some .conjunction
  | .keyword .or => some .disjunction
  | _ => none

/-- The level that the token starts an expression of, if it starts one. -/
def Token.starts? : Token → Option Level
  | .identifier _ => some .primary
  | .quoted _ => some .primary
  | .number _ => some .primary
  | .string _ => some .primary
  | .keyword .«true» => some .primary
  | .keyword .«false» => some .primary
  | .keyword .null => some .primary
  | .keyword .case => some .primary
  | .keyword .cast => some .primary
  | .sign .leftParen => some .primary
  | .sign .minus => some .sign
  | .keyword .not => some .negation
  | _ => none

namespace Level

/-- An expression of the level has ended when the token follows. -/
def Stops (level : Level) (t : Token) : Prop := ∀ l, t.continues? = some l → level.rank < l.rank

/-- The token starts an expression of the level. -/
def Starts (level : Level) (t : Token) : Prop := ∃ l, t.starts? = some l ∧ l.rank ≤ level.rank

theorem Stops.mono {level tighter : Level} {t : Token} (h : level.Stops t)
    (hle : tighter.rank ≤ level.rank) : tighter.Stops t :=
  fun l hl => Nat.lt_of_le_of_lt hle (h l hl)

theorem Starts.mono {level tighter : Level} {t : Token} (h : tighter.Starts t)
    (hle : tighter.rank ≤ level.rank) : level.Starts t := by
  obtain ⟨l, hl, hrank⟩ := h
  exact ⟨l, hl, Nat.le_trans hrank hle⟩

theorem stops_of_continues? {t : Token} (h : t.continues? = none) (level : Level) :
    level.Stops t := by
  intro l hl
  rw [h] at hl
  cases hl

/-- A token that goes on at a level ends what is tighter. -/
theorem stops_of_lt {level l : Level} {t : Token} (h : t.continues? = some l)
    (hlt : level.rank < l.rank) : level.Stops t := by
  intro l' hl'
  rw [h] at hl'
  cases hl'
  exact hlt

/-- The next tighter level. -/
def tighter : Level → Level
  | disjunction => conjunction
  | conjunction => negation
  | negation => comparison
  | comparison => addition
  | addition => multiplication
  | multiplication => sign
  | sign => indexing
  | indexing => primary
  | primary => primary

theorem rank_tighter {level : Level} (h : level ≠ primary) : level.tighter.rank + 1 = level.rank := by
  cases level <;> first | rfl | exact absurd rfl h

theorem eq_of_rank_eq {level l : Level} (h : level.rank = l.rank) : level = l := by
  cases level <;> cases l <;> first | rfl | cases h

/-- The level of the operands on which the readers of a level go on. -/
def operand : Level → Level
  | disjunction => conjunction
  | conjunction => negation
  | addition => multiplication
  | multiplication => sign
  | indexing => primary
  | level => level

theorem rank_operand (level : Level) :
    level.tighter.rank ≤ level.operand.rank ∧ level.operand.rank ≤ level.rank := by
  cases level <;> decide

end Level

namespace Expr

open Parse Token

variable {e b : Expr} {rest rest' ts : List Token} {level : Level}

/-- How the readers of a level go on behind an operand. -/
def continueAt : Level → Expr → (ts : List Token) → Parse Expr 0 ts
  | .disjunction, left, ts => readChain .disjunction .conjunction left ts
  | .conjunction, left, ts => readChain .conjunction .negation left ts
  | .comparison, left, ts => readComparison left ts
  | .addition, left, ts => readChain .addition .multiplication left ts
  | .multiplication, left, ts => readChain .multiplication .sign left ts
  | .indexing, left, ts => readIndexes left ts
  | _, left, _ => .done left

theorem operator?_eq_none (h : level.Stops (front ts)) : level.operator? (front ts) = none := by
  have hcontinues : ∀ op, level.operator? (front ts) = some op →
      (front ts).continues? = some level := by
    intro op hop
    unfold Level.operator? at hop
    split at hop <;> first | (rename_i heq; rw [heq]; rfl) | cases hop
  cases hop : level.operator? (front ts) with
  | none => rfl
  | some op => exact absurd (h level (hcontinues op hop)) (Nat.lt_irrefl _)

theorem acceptPredicate?_eq_none (h : Level.Stops .comparison (front ts)) :
    acceptPredicate? ts = none := by
  have hne : ∀ t : Token, t.continues? = some .comparison → front ts ≠ t := by
    intro t ht heq
    exact absurd (h .comparison (heq ▸ ht)) (Nat.lt_irrefl _)
  have hpredicate : ∀ t us, ts = t :: us → predicate? t = none := by
    rintro t us rfl
    have hcontinues : ∀ p, predicate? t = some p → t.continues? = some .comparison := by
      intro p hp
      unfold predicate? at hp
      split at hp <;> first | rfl | cases hp
    cases hp : predicate? t with
    | none => rfl
    | some p => exact absurd rfl (hne t (hcontinues p hp))
  unfold acceptPredicate?
  split
  · exact absurd rfl (hne (.keyword .not) rfl)
  · rw [hpredicate _ _ rfl]
    rfl
  · rfl

theorem readChain_eq_done {operand : Level} (h : level.Stops (front ts)) (left : Expr) :
    readChain level operand left ts = .done left := by
  rw [readChain, accept?_eq_none (operator?_eq_none h)]

/-- An expression of a level has ended when no token follows that makes the level go on. -/
theorem continueAt_eq_done (h : level.Stops (front ts)) (left : Expr) :
    continueAt level left ts = .done left := by
  have hne : ∀ t : Token, t.continues? = some level → front ts ≠ t := by
    intro t ht heq
    exact absurd (h level (heq ▸ ht)) (Nat.lt_irrefl _)
  cases level with
  | disjunction => exact readChain_eq_done h left
  | conjunction => exact readChain_eq_done h left
  | addition => exact readChain_eq_done h left
  | multiplication => exact readChain_eq_done h left
  | comparison =>
    rw [continueAt, readComparison, acceptToken?_of_ne (hne (.keyword .is) rfl),
      acceptPredicate?_eq_none h, accept?_eq_none (operator?_eq_none h)]
  | indexing => rw [continueAt, readIndexes, acceptToken?_of_ne (hne (.sign .leftBracket) rfl)]
  | negation => rfl
  | sign => rfl
  | primary => rfl

/-- What stands on a tighter level stands on a looser one, which goes on behind it. -/
theorem gives_read_of_tighter (hprimary : level ≠ .primary)
    (hstarts : level.tighter.Starts (front ts)) (h : (read level.tighter ts).Gives e rest)
    (hnext : (continueAt level e rest).Gives b rest') : (read level ts).Gives b rest' := by
  have hne : ∀ t : Token, t.starts? = some level → front ts ≠ t := by
    intro t ht heq
    obtain ⟨l, hl, hrank⟩ := hstarts
    rw [heq, ht] at hl
    cases hl
    have := Level.rank_tighter hprimary
    omega
  cases level with
  | primary => exact absurd rfl hprimary
  | negation =>
    rw [continueAt] at hnext
    · obtain ⟨rfl, rfl⟩ := (gives_done e).unique hnext
      rw [read, acceptToken?_of_ne (hne (.keyword .not) rfl)]
      exact h
    all_goals simp
  | sign =>
    rw [continueAt] at hnext
    · obtain ⟨rfl, rfl⟩ := (gives_done e).unique hnext
      rw [read, acceptToken?_of_ne (hne (.sign .minus) rfl)]
      exact h
    all_goals simp
  | _ =>
    rw [read]
    exact h.andThen fun _ => hnext

/-- What stands on a level, whatever it goes on with, stands on every looser one. -/
theorem gives_read_of_rank_le {own : Level} (hrank : own.rank ≤ level.rank)
    (hstarts : own.Starts (front ts)) (hstops : level.operand.Stops (front rest))
    (h : ∀ {b rest'}, (continueAt own e rest).Gives b rest' → (read own ts).Gives b rest')
    (hnext : (continueAt level e rest).Gives b rest') : (read level ts).Gives b rest' := by
  obtain ⟨k, hk⟩ := Nat.exists_eq_add_of_le hrank
  induction k generalizing level b rest' with
  | zero =>
    obtain rfl := Level.eq_of_rank_eq hk
    exact h hnext
  | succ k ih =>
    have hprimary : level ≠ .primary := by
      rintro rfl
      have : Level.primary.rank = 0 := rfl
      omega
    have htighter := Level.rank_tighter hprimary
    have hle := level.rank_operand
    have hstops' : level.tighter.Stops (front rest) := hstops.mono hle.1
    refine gives_read_of_tighter hprimary (hstarts.mono (by omega)) (ih (by omega) ?_ ?_ (by omega)) hnext
    · exact hstops'.mono level.tighter.rank_operand.2
    · rw [continueAt_eq_done hstops']
      exact gives_done e

end Expr

end TableQuery
