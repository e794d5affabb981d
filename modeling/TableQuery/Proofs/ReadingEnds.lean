/-
Reading ends.

Every reader does what `Reader.body` says, with its calls answered by the readers that it calls. It makes no
call but those of `Reader.MayCall`, which leave fewer tokens or go to a tighter reader. So the tokens bound the
depth to which calls are nested, also for tokens that are no query.

* `Attempt.Does` — an attempt comes to what a reader comes to;
* `Reader.does_body` — what every reader does;
* `Reader.within_eq_read` — the depth to which its calls are nested.
-/
import TableQuery.Proofs.Readers

namespace TableQuery

namespace Attempt

variable {α β : Type} {k m n : Nat} {rest ts : List Token}

/-! ### Attempts that do what readers do -/

/-- An attempt comes to what a reader of the same tokens comes to. -/
def Does (s : Attempt α) (ts : List Token) (p : Parse α n ts) : Prop := s ts = p.attempted

theorem bind_of_ok {s : Attempt α} {a : α} (h : s ts = some (.ok (a, rest))) (g : α → Attempt β) :
    (s >>= g) ts = g a rest := by
  show (s ts : ExceptT ParseError Option _) >>= (fun r => g r.1 r.2) = _
  rw [h]
  rfl

theorem bind_of_error {s : Attempt α} {e : ParseError} (h : s ts = some (.error e))
    (g : α → Attempt β) : (s >>= g) ts = some (.error e) := by
  show (s ts : ExceptT ParseError Option _) >>= (fun r => g r.1 r.2) = _
  rw [h]
  rfl

namespace Does

theorem pure (a : α) : Does (Pure.pure a) ts (.done a) := rfl

theorem leaf (p : (ts : List Token) → Parse α n ts) : Does (Attempt.leaf p) ts (p ts) := rfl

theorem get {g : List Token → Attempt α} {p : Parse α n ts} (h : (g ts).Does ts p) :
    (MonadState.get >>= g).Does ts p := h

theorem weaken {s : Attempt α} {p : Parse α n ts} (h : s.Does ts p) : s.Does ts p.weaken := by
  rw [Does, h]
  cases p <;> rfl

theorem andThen {s : Attempt α} {g : α → Attempt β} {p : Parse α m ts}
    {f : (a : α) → (rest : List Token) → rest.length + m ≤ ts.length → Parse β n rest}
    (h : s.Does ts p) (hg : ∀ a rest taken, rest <:+ ts → (g a).Does rest (f a rest taken)) :
    (s >>= g).Does ts (p.andThen f) := by
  cases p with
  | error e => exact bind_of_error h g
  | ok r =>
    obtain ⟨a, rest, suffix, taken⟩ := r
    rw [Does, bind_of_ok h, hg a rest taken suffix, Parse.andThen]
    cases f a rest taken <;> rfl

theorem before {s : Attempt α} {g : α → Attempt β} {p : Parse α m ts}
    {f : (a : α) → (rest : List Token) → rest.length + m ≤ ts.length → Parse β n rest}
    (h : s.Does ts p) (hg : ∀ a rest taken, rest <:+ ts → (g a).Does rest (f a rest taken)) :
    (s >>= g).Does ts (p.before f) := by
  cases p with
  | error e => exact bind_of_error h g
  | ok r =>
    obtain ⟨a, rest, suffix, taken⟩ := r
    rw [Does, bind_of_ok h, hg a rest taken suffix, Parse.before]
    cases f a rest taken <;> rfl

theorem map {s : Attempt α} {g : α → Attempt β} {p : Parse α n ts} {f : α → β} (h : s.Does ts p)
    (hg : ∀ a, g a = Pure.pure (f a)) : (s >>= g).Does ts (p.map f) := by
  cases p with
  | error e => exact bind_of_error h g
  | ok r =>
    rw [Does, bind_of_ok h, hg]
    rfl

theorem accepted [AtMostOne k] {q : (ts : List Token) → Option (Parsed α 1 ts)} {g : Option α → Attempt β}
    {a : α} {suffix : rest <:+ ts} {taken : rest.length + 1 ≤ ts.length} {p : Parse β n rest}
    (hq : q ts = some ⟨a, rest, suffix, taken⟩) (h : (g (some a)).Does rest p) :
    (accept q >>= g).Does ts (Parse.behind suffix taken p : Parse β k ts) := by
  have hs : accept q ts = some (.ok (some a, rest)) := by rw [accept, hq]
  rw [Does, bind_of_ok hs, h]
  cases p <;> rfl

theorem skipped {q : (ts : List Token) → Option (Parsed α 1 ts)} {g : Option α → Attempt β}
    {p : Parse β n ts} (hq : q ts = none) (h : (g none).Does ts p) : (accept q >>= g).Does ts p := by
  have hs : accept q ts = some (.ok (none, ts)) := by rw [accept, hq]
  rw [Does, bind_of_ok hs, h]

theorem failed {q : (ts : List Token) → Option (Parsed α 1 ts)} {g : Option α → Attempt β} {a : α}
    {e : ParseError} {suffix : rest <:+ ts} {taken : rest.length + 1 ≤ ts.length}
    (hq : q ts = some ⟨a, rest, suffix, taken⟩) (h : g (some a) rest = some (.error e)) :
    (accept q >>= g).Does ts (.error e : Parse β n ts) := by
  have hs : accept q ts = some (.ok (some a, rest)) := by rw [accept, hq]
  rw [Does, bind_of_ok hs, h]
  rfl

theorem optional {s : Attempt α} {p : (ts : List Token) → Parse α n ts} {word : Keyword}
    (h : ∀ rest, rest <:+ ts → rest.length + 1 ≤ ts.length → s.Does rest (p rest)) :
    (Attempt.optional word s).Does ts (Token.optional word p ts) := by
  rw [Token.optional]
  split
  · next rest suffix taken hq => exact .accepted hq (.map (h rest suffix taken) fun _ => rfl)
  · next hq => exact .skipped hq (.pure none)

theorem clause_of_none {word : Keyword} (h : Expr.acceptClause? word ts = none) :
    (Attempt.clause word).Does ts (.done false) := by
  rw [Expr.acceptClause?] at h
  split at h
  · cases h
  · next hq => exact .skipped hq (.pure false)

theorem clause_of_some {word : Keyword} {p : Parse Unit 1 ts} (h : Expr.acceptClause? word ts = some p) :
    (Attempt.clause word).Does ts (p.map fun _ => true) := by
  rw [Expr.acceptClause?] at h
  split at h
  · next rest suffix taken hq =>
    cases h
    have hby : (Attempt.leaf (Token.expect (.keyword .«by»)) >>= fun _ => return true).Does rest
        ((Token.expect (.keyword .«by») rest).map fun _ => true) := .map (.leaf _) fun _ => rfl
    refine (Does.accepted hq hby).trans (congrArg Parse.attempted ?_)
    cases Token.expect (.keyword .«by») rest <;> rfl
  · cases h

theorem clause {s : Attempt α} {p : (ts : List Token) → Parse α 1 ts} {word : Keyword} {a : α}
    (h : ∀ rest, rest <:+ ts → rest.length + 1 ≤ ts.length → s.Does rest (p rest)) :
    (Attempt.clause word >>= fun b => if b then s else return a).Does ts
      (match Expr.acceptClause? word ts with
        | none => .done a
        | some (.error e) => .error e
        | some (.ok ⟨_, rest, suffix, taken⟩) => .behind suffix taken (p rest) : Parse α 0 ts) := by
  split
  · next hq => exact bind_of_ok (clause_of_none hq) _
  · next e hq => exact bind_of_error (clause_of_some hq) _
  · next rest suffix taken hq =>
    rw [Does, bind_of_ok (clause_of_some hq)]
    refine (h rest suffix taken).trans ?_
    cases p rest <;> rfl

end Does

end Attempt

namespace Reader

open Attempt

variable {call : (r : Reader) → Attempt r.Answer} {r r' : Reader} {rest ts : List Token}

/-! ### Answered calls -/

/-- Every call on what is left, or on an end of it, is answered by the reader that is called. -/
def Answers (call : (r : Reader) → Attempt r.Answer) (ts : List Token) : Prop :=
  ∀ r rest, rest <:+ ts → (call r).Does rest (r.read rest)

/-- Every call that a reader may make is answered by the reader that is called. -/
def AnswersTo (call : (r : Reader) → Attempt r.Answer) (r : Reader) (ts : List Token) : Prop :=
  ∀ r' rest, r.MayCall ts r' rest → (call r').Does rest (r'.read rest)

namespace Answers

theorem now (h : Answers call ts) : (call r).Does ts (r.read ts) := h r ts (List.suffix_refl ts)

theorem of_suffix (h : Answers call ts) (suffix : rest <:+ ts) : Answers call rest :=
  fun r _ suffix' => h r _ (suffix'.trans suffix)

theorem andThen (h : Answers call ts) {α β : Type} {m n : Nat} {s : Attempt α} {g : α → Attempt β}
    {p : Parse α m ts}
    {f : (a : α) → (rest : List Token) → rest.length + m ≤ ts.length → Parse β n rest}
    (hs : s.Does ts p) (hg : ∀ a rest taken, Answers call rest → (g a).Does rest (f a rest taken)) :
    (s >>= g).Does ts (p.andThen f) :=
  .andThen hs fun a rest taken suffix => hg a rest taken (h.of_suffix suffix)

end Answers

namespace AnswersTo

theorem behind (h : AnswersTo call r ts) (suffix : rest <:+ ts) (taken : rest.length + 1 ≤ ts.length) :
    Answers call rest :=
  fun r' _ suffix' =>
    h r' _ ⟨suffix'.trans suffix, .inl (Nat.lt_of_le_of_lt suffix'.length_le taken)⟩

theorem tighter (h : AnswersTo call r ts) (suffix : rest <:+ ts) (hr : r'.rank < r.rank) :
    (call r').Does rest (r'.read rest) :=
  h r' rest ⟨suffix, (Nat.lt_or_eq_of_le suffix.length_le).imp_right fun he =>
    ⟨suffix.eq_of_length he, hr⟩⟩

theorem now (h : AnswersTo call r ts) (hr : r'.rank < r.rank) : (call r').Does ts (r'.read ts) :=
  h.tighter (List.suffix_refl ts) hr

theorem andThen (h : AnswersTo call r ts) {α β : Type} {n : Nat} {s : Attempt α} {g : α → Attempt β}
    {p : Parse α 1 ts}
    {f : (a : α) → (rest : List Token) → rest.length + 1 ≤ ts.length → Parse β n rest}
    (hs : s.Does ts p) (hg : ∀ a rest taken, Answers call rest → (g a).Does rest (f a rest taken)) :
    (s >>= g).Does ts (p.andThen f) :=
  .andThen hs fun a rest taken suffix => hg a rest taken (h.behind suffix taken)

end AnswersTo

/-! ### Expressions -/

theorem does_chain {l operand : Level} {left : Expr} (h : AnswersTo call (chain l operand left) ts) :
    (body call (chain l operand left)).Does ts (Expr.readChain l operand left ts) := by
  rw [Expr.readChain]
  split
  · next op rest suffix taken hq =>
    have h := h.behind suffix taken
    exact .accepted hq (h.andThen h.now fun right rest _ h => h.now)
  · next hq => exact .skipped hq (.pure left)

theorem does_level {l : Level} (h : AnswersTo call (level l) ts) :
    (body call (level l)).Does ts (Expr.read l ts) := by
  cases l with
  | disjunction | conjunction | comparison | addition | multiplication | indexing =>
    rw [Expr.read]
    exact h.andThen (h.now Nat.le.refl) fun left rest _ h => h.now
  | negation | sign =>
    rw [Expr.read]
    split
    · next rest suffix taken hq => exact .accepted hq (.map (h.behind suffix taken).now fun _ => rfl)
    · next hq => exact .skipped hq (h.now Nat.le.refl)
  | primary =>
    rw [Expr.read]
    exact h.now Nat.le.refl

theorem does_comparison {left : Expr} (h : AnswersTo call (comparison left) ts) :
    (body call (comparison left)).Does ts (Expr.readComparison left ts) := by
  rw [Expr.readComparison]
  split
  · next rest suffix taken hq =>
    refine .accepted hq ?_
    -- Of what goes on behind a token, only the match in the reader is left to be split.
    dsimp only
    split
    · next rest suffix taken hnot => exact .accepted hnot (.map (.leaf _) fun _ => rfl)
    · next hnot => exact .skipped hnot (.map (.leaf _) fun _ => rfl)
  · next his =>
    refine .skipped his ?_
    dsimp only
    split
    · next negated rest suffix taken hq =>
      have h := h.behind suffix taken
      exact .accepted hq (h.andThen (.leaf _) fun _ rest _ h => .map h.now fun _ => rfl)
    · next kind negated rest suffix taken hq =>
      exact .accepted hq (.map (h.behind suffix taken).now fun _ => rfl)
    · next hpredicate =>
      refine .skipped hpredicate ?_
      dsimp only
      split
      · next op rest suffix taken hq => exact .accepted hq (.map (h.behind suffix taken).now fun _ => rfl)
      · next hq => exact .skipped hq (.pure left)

theorem does_indexes {base : Expr} (h : AnswersTo call (indexes base) ts) :
    (body call (indexes base)).Does ts (Expr.readIndexes base ts) := by
  rw [Expr.readIndexes]
  split
  · next rest suffix taken hq =>
    have h := h.behind suffix taken
    exact .accepted hq (h.andThen h.now fun position rest _ h =>
      h.andThen (.leaf _) fun _ rest _ h => h.now)
  · next hq => exact .skipped hq (.pure base)

theorem does_primary (h : AnswersTo call primary ts) :
    (body call primary).Does ts (Expr.readPrimary ts) := by
  rw [Expr.readPrimary]
  split
  · next hq => exact .skipped hq rfl
  · next t rest suffix taken hq =>
    have h := h.behind suffix taken
    split
    -- What is one token long, up to the missing value.
    · exact .accepted hq (.pure _)
    · exact .accepted hq (.pure _)
    · exact .accepted hq (.pure _)
    · exact .accepted hq (.pure _)
    · exact .accepted hq (.pure _)
    -- Parentheses, case distinctions, conversions, names and all other tokens.
    · split
      · next hselect => exact .failed hq (congrFun (if_pos hselect) rest)
      · next hselect =>
        refine .accepted hq (.get ?_)
        rw [if_neg hselect]
        exact h.andThen h.now fun e rest _ h => .map (.leaf _) fun _ => rfl
    · split
      · next hwhen =>
        refine .accepted hq (.get ?_)
        rw [if_pos hwhen]
        exact .map h.now fun _ => rfl
      · next hwhen =>
        refine .accepted hq (.get ?_)
        rw [if_neg hwhen]
        exact h.andThen h.now fun base rest _ h => .map h.now fun _ => rfl
    · exact .accepted hq (h.andThen (.leaf _) fun _ rest _ h =>
        h.andThen h.now fun e rest _ h =>
        h.andThen (.leaf _) fun _ rest _ h =>
        h.andThen (.leaf _) fun target rest _ h => .map (.leaf _) fun _ => rfl)
    · split
      · next rest suffix taken hparen =>
        exact .accepted hq (.accepted hparen (h.of_suffix suffix).now)
      · next hparen => exact .accepted hq (.skipped hparen (.leaf _))
    · exact .accepted hq (.leaf _)
    · refine .failed hq ?_
      show bodyOfPrimary call _ _ = _
      rw [bodyOfPrimary] <;> first | rfl | assumption

theorem does_arguments {name : String} (h : AnswersTo call (arguments name) ts) :
    (body call (arguments name)).Does ts (Expr.readArguments name ts) := by
  rw [Expr.readArguments]
  split
  · next rest suffix taken hq => exact .accepted hq (.map (.leaf _) fun _ => rfl)
  · next hq =>
    exact .skipped hq (.before (.leaf _) fun q rest _ suffix =>
      .map (h.tighter suffix Nat.le.refl) fun _ => rfl)

theorem does_items (h : AnswersTo call items ts) : (body call items).Does ts (Expr.readItems ts) := by
  rw [Expr.readItems]
  split
  · next r hq =>
    -- The parenthesis that closes an empty list is all that is taken.
    obtain ⟨u, rest, suffix, taken⟩ := r
    show Does _ ts (Parse.behind suffix taken (.done []))
    exact .accepted hq (.pure [])
  · next hq =>
    exact .skipped hq (h.andThen (h.now (by decide)) fun es rest _ h => .map (.leaf _) fun _ => rfl)

theorem does_list (h : AnswersTo call list ts) : (body call list).Does ts (Expr.readList ts) := by
  rw [Expr.readList]
  refine h.andThen (h.now (by decide)) fun e rest _ h => ?_
  split
  · next rest suffix taken hq => exact .accepted hq (.map (h.of_suffix suffix).now fun _ => rfl)
  · next hq => exact .skipped hq (.pure [e])

theorem does_branches {first : Bool} (h : AnswersTo call (branches first) ts) :
    (body call (branches first)).Does ts (Expr.readBranches first ts) := by
  rw [Expr.readBranches]
  split
  · next rest suffix taken hq =>
    have h := h.behind suffix taken
    exact .accepted hq (h.andThen h.now fun condition rest _ h =>
      h.andThen (.leaf _) fun _ rest _ h =>
      h.andThen h.now fun result rest _ h => .map h.now fun _ => rfl)
  · next hwhen =>
    refine .skipped hwhen ?_
    dsimp only
    cases first with
    | true => exact rfl
    | false =>
      simp only [Bool.false_eq_true, ↓reduceIte]
      split
      · next rest suffix taken hq =>
        have h := h.behind suffix taken
        exact .accepted hq (h.andThen h.now fun e rest _ h => .map (.leaf _) fun _ => rfl)
      · next hq => exact .skipped hq (.map (.leaf _) fun _ => rfl)

/-! ### Windows -/

theorem does_partition (h : Answers call ts) :
    (bodyOfPartition call).Does ts (Expr.readPartition ts) := by
  rw [Expr.readPartition]
  split
  · next rest suffix taken hq =>
    have h := h.of_suffix suffix
    exact .accepted hq (h.andThen (.leaf _) fun _ rest _ h => h.now)
  · next hq => exact .skipped hq (.pure _)

theorem does_windowed (h : AnswersTo call windowed ts) :
    (body call windowed).Does ts (Expr.readWindowed ts) := by
  rw [Expr.readWindowed]
  refine h.andThen (h.now (by decide)) fun e rest _ h => ?_
  -- A window belongs to a call, so nothing is looked for behind any other expression.
  cases hcall : Expr.call? e with
  | none => exact .pure e
  | some f =>
    cases hover : Token.acceptWord? "over" rest with
    | none => exact .skipped hover (.pure e)
    | some r => exact .accepted hover (h.of_suffix r.suffix).now

theorem does_window {function : Expr} (h : AnswersTo call (window function) ts) :
    (body call (window function)).Does ts (Expr.readWindow function ts) := by
  rw [Expr.readWindow]
  exact h.andThen (.leaf _) fun _ rest _ h =>
    h.andThen (does_partition h) fun partition rest _ h =>
    h.andThen h.now fun items rest _ h =>
    h.andThen (.leaf _) fun extent rest _ h => .map (.leaf _) fun _ => rfl

theorem does_order (h : AnswersTo call order ts) : (body call order).Does ts (Expr.readOrder ts) := by
  rw [Expr.readOrder]
  exact .clause fun rest suffix taken => (h.behind suffix taken).now

theorem does_orderItems (h : AnswersTo call orderItems ts) :
    (body call orderItems).Does ts (Expr.readOrderItems ts) := by
  rw [Expr.readOrderItems]
  refine h.andThen (h.now (by decide)) fun e rest _ h => h.andThen (.leaf _) fun d rest _ h => ?_
  split
  · next rest suffix taken hq => exact .accepted hq (.map (h.of_suffix suffix).now fun _ => rfl)
  · next hq => exact .skipped hq (.pure _)

/-! ### Queries -/

theorem does_selectItem (h : AnswersTo call selectItem ts) :
    (body call selectItem).Does ts (Statement.readItem ts) := by
  rw [Statement.readItem]
  split
  · next rest suffix taken hq => exact .accepted hq (.pure _)
  · next hq =>
    refine .skipped hq (.get ?_)
    split
    · next htable =>
      exact .andThen (.leaf _) fun table rest _ _ => .andThen (.leaf _) fun _ rest _ _ =>
        .map (.leaf _) fun _ => rfl
    · next htable =>
      refine h.andThen (h.now (by decide)) fun e rest _ h => .map (.leaf _) fun renamed => ?_
      cases renamed <;> rfl

theorem does_selectItems (h : AnswersTo call selectItems ts) :
    (body call selectItems).Does ts (Statement.readItems ts) := by
  rw [Statement.readItems]
  refine h.andThen (h.now (by decide)) fun item rest _ h => ?_
  split
  · next rest suffix taken hq => exact .accepted hq (.map (h.of_suffix suffix).now fun _ => rfl)
  · next hq => exact .skipped hq (.pure _)

theorem does_factor (h : AnswersTo call factor ts) :
    (body call factor).Does ts (Statement.readFactor ts) := by
  rw [Statement.readFactor]
  split
  · next rest suffix taken hq =>
    have h := h.behind suffix taken
    refine .accepted hq (h.andThen h.now fun query rest _ h => h.andThen (.leaf _) fun _ rest _ h =>
      h.andThen (.leaf _) fun renamed rest _ h => ?_)
    cases renamed <;> rfl
  · next hq => exact .skipped hq (.andThen (.leaf _) fun name rest _ _ => .map (.leaf _) fun _ => rfl)

theorem does_join {left : Source} (h : AnswersTo call (join left) ts) :
    (body call (join left)).Does ts (Statement.readJoin left ts) :=
  h.andThen (.leaf _) fun _ _ _ h => h.andThen h.now fun _ _ _ h =>
    h.andThen (.leaf _) fun _ _ _ h => .map h.now fun _ => rfl

theorem does_joins {left : Source} (h : AnswersTo call (joins left) ts) :
    (body call (joins left)).Does ts (Statement.readJoins left ts) := by
  rw [Statement.readJoins_eq]
  refine .get ?_
  split
  · next hstarts => exact .weaken (h.andThen (h.now Nat.le.refl) fun joined rest _ h => h.now)
  · next hstarts => exact .pure left

theorem does_source (h : AnswersTo call source ts) :
    (body call source).Does ts (Statement.readSource ts) := by
  rw [Statement.readSource]
  split
  · next hq => exact .skipped hq (.pure _)
  · next rest suffix taken hq =>
    have h := h.behind suffix taken
    exact .accepted hq (h.andThen h.now fun f rest _ h => h.now)

theorem does_groupBy (h : Answers call ts) : (bodyOfGroupBy call).Does ts (Statement.readGroupBy ts) :=
  .clause fun _ suffix _ => (h.of_suffix suffix).now

theorem does_clauses {quantifier : Option Quantifier} {items : List SelectItem} (h : Answers call ts) :
    (bodyOfClauses call quantifier items).Does ts (Statement.readClauses quantifier items ts) :=
  h.andThen (.optional fun _ suffix _ => (h.of_suffix suffix).now) fun _ _ _ h =>
    h.andThen (does_groupBy h) fun _ _ _ h =>
    h.andThen (.optional fun _ suffix _ => (h.of_suffix suffix).now) fun _ _ _ h =>
    h.andThen h.now fun _ _ _ _ => .map (.optional fun _ _ _ => .leaf _) fun _ => rfl

theorem does_statement (h : AnswersTo call statement ts) :
    (body call statement).Does ts (Statement.read ts) := by
  rw [Statement.read]
  exact h.andThen (.leaf _) fun _ rest _ h => h.andThen (.leaf _) fun quantifier rest _ h =>
    h.andThen h.now fun items rest _ h => h.andThen h.now fun source rest _ h =>
    .map (does_clauses h) fun _ => rfl

theorem does_whole (h : AnswersTo call whole ts) : (body call whole).Does ts (Statement.readWhole ts) := by
  refine h.andThen (h.now (by decide)) fun s rest _ h => ?_
  split
  · next rest suffix taken hq => exact .accepted hq (.leaf _)
  · next hq => exact .skipped hq (.leaf _)

/-! ### Nesting -/

theorem does_body (h : AnswersTo call r ts) : (r.body call).Does ts (r.read ts) := by
  cases r with
  | whole => exact does_whole h
  | statement => exact does_statement h
  | selectItems => exact does_selectItems h
  | selectItem => exact does_selectItem h
  | source => exact does_source h
  | joins left => exact does_joins h
  | join left => exact does_join h
  | factor => exact does_factor h
  | windowed => exact does_windowed h
  | window function => exact does_window h
  | order => exact does_order h
  | orderItems => exact does_orderItems h
  | level l => exact does_level h
  | chain l operand left => exact does_chain h
  | comparison left => exact does_comparison h
  | indexes base => exact does_indexes h
  | primary => exact does_primary h
  | arguments name => exact does_arguments h
  | items => exact does_items h
  | list => exact does_list h
  | branches first => exact does_branches h

theorem MayCall.decreases (h : r.MayCall ts r' rest) :
    13 * rest.length + r'.rank < 13 * ts.length + r.rank := by
  -- One token less makes up for any rank.
  have hrank := r'.rank_lt
  obtain ⟨-, hlength | ⟨rfl, hr⟩⟩ := h <;> omega

theorem does_within {n : Nat} (hn : 13 * ts.length + r.rank < n) :
    (r.within n).Does ts (r.read ts) := by
  -- On the depth, for all readers at once: a call is a reader of its own on its own tokens.
  induction n generalizing r ts with
  | zero => omega
  | succ n ih =>
    rw [Does, within]
    refine does_body fun r' rest hcall => ?_
    rw [Does, if_pos hcall]
    exact ih (by have h := hcall.decreases; omega)

/-- Every reader comes to an end, whatever the tokens are: to what it reads, or to an error. It is nested
in itself and in other readers by thirteen calls for each token that is left, and by as many more as there
are tighter readers. No call is made but behind a token that was taken, or on a tighter level, as `within`
comes to nothing otherwise. What is left is an end of the tokens, and it lacks `least` of them or more. The
query that all of the tokens are is what `whole` reads. -/
theorem within_eq_read {n : Nat} (r : Reader) (ts : List Token) (hn : 13 * ts.length + r.rank < n) :
    r.rank < 13 ∧
    r.body (fun r' rest => (r'.read rest).attempted) ts = (r.read ts).attempted ∧
    r.within n ts = (r.read ts).attempted ∧
    (∀ a rest, r.within n ts = some (.ok (a, rest)) →
      rest <:+ ts ∧ rest.length + r.least ≤ ts.length) ∧
    Statement.ofTokens ts = Except.map Parsed.value (whole.read ts) := by
  have hwithin := does_within hn
  refine ⟨r.rank_lt, does_body fun _ _ _ => rfl, hwithin, fun a rest hread => ?_,
    Statement.ofTokens_eq ts⟩
  rw [hwithin] at hread
  cases hr : r.read ts with
  | error e =>
    rw [hr] at hread
    cases hread
  | ok parsed =>
    rw [hr] at hread
    cases hread
    exact ⟨parsed.suffix, parsed.taken⟩

/-- A parenthesis that is not closed, with an operator that lacks its operand. -/
def unclosed : List Token := [.keyword .select, .sign .leftParen, .keyword .not]

theorem within_eq_read_unclosed :
    13 * unclosed.length + whole.rank < 41 ∧
    whole.within 41 unclosed = some (.error (.inExpression .eof)) ∧
    Statement.ofTokens unclosed = .error (.inExpression .eof) := by
  have hn : 13 * unclosed.length + whole.rank < 41 := by decide
  have hends : whole.within 41 unclosed = some (.error (.inExpression .eof)) := rfl
  obtain ⟨-, -, hread, -, htokens⟩ := within_eq_read whole unclosed hn
  refine ⟨hn, hends, htokens.trans ?_⟩
  rw [hends] at hread
  cases hr : whole.read unclosed with
  | error e =>
    rw [hr] at hread
    cases hread
    rfl
  | ok parsed =>
    rw [hr] at hread
    cases hread

end Reader

end TableQuery
