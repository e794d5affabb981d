/-
Expressions are read back from their tokens.

`Spelling.Reads s e` says that the reader of every level that is loose enough for `e` gives `e` back,
whatever it goes on with behind it. It is shown of an expression from its operands, with one lemma
for each kind of place: `gives_readChain`, `gives_readComparison`, `gives_readIndexes`,
`gives_readItems`, `gives_readBranches`, `gives_readArguments`.

* `Spelling.starts_expr` — the first token of an expression starts one of its level;
* `Spelling.reads_literal` to `Spelling.reads_chain` — an expression of each kind, from its operands;
* `Spelling.reads` — every readable expression is read back.
-/
import TableQuery.Proofs.Parentheses

namespace TableQuery

/-! ### Tokens of operators and names -/

theorem Level.operator?_token (op : BinaryOperator) : op.level.operator? op.token = some op := by
  cases op <;> rfl

theorem BinaryOperator.continues?_token (op : BinaryOperator) :
    op.token.continues? = some op.level := by
  cases op <;> rfl

theorem Token.starts?_of_name? {t : Token} {name : String} (h : t.name? = some name) :
    t.starts? = some .primary := by
  cases t <;> first | rfl | cases h

theorem CastType.ofName?_name (t : CastType) : CastType.ofName? t.name = some t := by
  cases t <;> decide

/-- A token that starts no expression is not the first one of any. -/
theorem Level.Starts.ne {level : Level} {t u : Token} (h : level.Starts t) (hu : u.starts? = none) :
    t ≠ u := by
  rintro rfl
  obtain ⟨l, hl, _⟩ := h
  rw [hu] at hl
  cases hl

/-- No expression begins with a quantifier. -/
theorem Level.Starts.quantifier?_eq {level : Level} {t : Token} (h : level.Starts t) :
    Expr.quantifier? t = none := by
  unfold Expr.quantifier?
  split
  · exact absurd rfl (h.ne rfl)
  · exact absurd rfl (h.ne rfl)
  · rfl

theorem Level.starts_of_primary {t : Token} (h : t.starts? = some .primary) (level : Level) :
    level.Starts t := ⟨.primary, h, Nat.zero_le _⟩

theorem Level.rank_left_le (level : Level) : level.left.rank ≤ level.rank := by
  cases level <;> decide

theorem Level.operand_mono {level own : Level} (h : own.rank ≤ level.rank) :
    own.operand.rank ≤ level.operand.rank := by
  cases own <;> cases level <;> first | decide | exact absurd h (by decide)

namespace Spelling

open Parse Token TableQuery.Expr

variable (s : Spelling) {e b : Expr} {es : List Expr} {level : Level} {rest rest' ts : List Token}

/-! ### First tokens -/

theorem starts_name (name : String) (level : Level) : level.Starts (s.name name) :=
  Level.starts_of_primary (starts?_of_name? (s.name?_name name)) level

/-- The first token of an expression starts one of its level. -/
theorem starts_expr (h : e.Readable) (rest : List Token) :
    e.level.Starts (front (s.expr e rest)) := by
  induction h generalizing rest with
  | @intro e node fits _ ih =>
    -- an operand in front brings the first token along
    have hfront : ∀ {level o}, (level, o) ∈ e.slots → level.rank ≤ e.level.rank →
        ∀ rest, e.level.Starts (front (s.expr o rest)) := by
      intro level o ho hle rest
      exact (ih _ ho rest).mono (Nat.le_trans (fits _ ho) hle)
    have hcomparison : Level.addition.rank ≤ Level.comparison.rank := by decide
    cases e with
    | literal v =>
      rw [expr]
      cases v with
      | list items => cases node
      | boolean b => cases b <;> exact Level.starts_of_primary rfl _
      | _ => exact Level.starts_of_primary rfl _
    | field name => rw [expr]; exact s.starts_name name _
    | qualified table name => rw [expr]; exact s.starts_name table _
    | binary op l r => rw [expr]; exact hfront (.head _) op.level.rank_left_le _
    | unary op e => rw [expr]; cases op <;> exact ⟨_, rfl, Nat.le_refl _⟩
    | isNull e negated => rw [expr]; exact hfront (.head _) hcomparison _
    | isIn e items negated => rw [expr]; exact hfront (.head _) hcomparison _
    | isLike kind e p negated => rw [expr]; exact hfront (.head _) hcomparison _
    | index base position => rw [expr]; exact hfront (.head _) (Nat.le_refl _) _
    | aliased | window => cases node
    | _ => rw [expr]; exact Level.starts_of_primary rfl _

/-! ### Reading on -/

/-- The readers give the expression back on every level that is loose enough for it, and go on behind
it. -/
def Reads (e : Expr) : Prop :=
  ∀ level rest b rest', e.level.rank ≤ level.rank → level.operand.Stops (front rest) →
    (continueAt level e rest).Gives b rest' → (read level (s.expr e rest)).Gives b rest'

variable {s}

/-- The readers of a level stop behind the expression if nothing follows that they go on with. -/
theorem Reads.ends (h : s.Reads e) (hrank : e.level.rank ≤ level.rank)
    (hstops : level.Stops (front rest)) : (read level (s.expr e rest)).Gives e rest := by
  refine h level rest e rest hrank (hstops.mono level.rank_operand.2) ?_
  rw [continueAt_eq_done hstops]
  exact gives_done e

/-- The reader of any expression stops where no operator follows. -/
theorem Reads.whole (h : s.Reads e) (hstops : (front rest).continues? = none) :
    (read .disjunction (s.expr e rest)).Gives e rest :=
  h.ends e.level.rank_le (Level.stops_of_continues? hstops _)

/-- It is enough that the reader of its own level gives the expression back. -/
theorem reads_of_own (h : e.Readable)
    (hown : ∀ rest b rest', e.level.operand.Stops (front rest) →
      (continueAt e.level e rest).Gives b rest' → (read e.level (s.expr e rest)).Gives b rest') :
    s.Reads e := by
  intro level rest b rest' hrank hstops hnext
  have hstops' : e.level.operand.Stops (front rest) := hstops.mono (Level.operand_mono hrank)
  exact gives_read_of_rank_le hrank (s.starts_expr h rest) hstops (hown rest _ _ hstops') hnext

/-- An expression of a level that does not go on. -/
theorem reads_of_ends (h : e.Readable) (hlevel : e.level.operand = e.level)
    (hends : ∀ rest, e.level.Stops (front rest) → (read e.level (s.expr e rest)).Gives e rest) :
    s.Reads e := by
  refine reads_of_own h fun rest b rest' hstops hnext => ?_
  rw [hlevel] at hstops
  rw [continueAt_eq_done hstops] at hnext
  obtain ⟨rfl, rfl⟩ := (gives_done e).unique hnext
  exact hends rest hstops

/-- A chain of operators of one level goes on with a further operand. -/
theorem gives_readChain {operand : Level} {op : BinaryOperator} {l r : Expr}
    (hr : (read operand ts).Gives r rest)
    (hnext : (readChain op.level operand (binary op l r) rest).Gives b rest') :
    (readChain op.level operand l (op.token :: ts)).Gives b rest' := by
  rw [readChain, accept?_cons, Level.operator?_token]
  exact (hr.andThen fun _ => hnext).next

theorem gives_readComparison {op : BinaryOperator} {l r : Expr} (hop : op.level = .comparison)
    (hr : (read .addition ts).Gives r rest) :
    (readComparison l (op.token :: ts)).Gives (binary op l r) rest := by
  rw [readComparison]
  cases op <;> first | exact (hr.map _).next | cases hop

theorem gives_readComparison_isNull (negated : Bool) (rest : List Token) :
    (readComparison e (.keyword .is :: negation negated (.keyword .null :: rest))).Gives
      (isNull e negated) rest := by
  rw [readComparison]
  cases negated with
  | true => exact ((gives_expect _ _).map _).next.next
  | false => exact ((gives_expect _ _).map _).next

theorem gives_readComparison_isIn {items : List Expr} (negated : Bool)
    (h : (readItems ts).Gives items rest) :
    (readComparison e (negation negated (.keyword .«in» :: .sign .leftParen :: ts))).Gives
      (isIn e items negated) rest := by
  rw [readComparison]
  cases negated <;> exact Gives.behind ((gives_expect _ _).andThen fun _ => h.map _) _ _

theorem gives_readComparison_isLike {kind : PatternKind} {p : Expr} (negated : Bool)
    (h : (read .addition ts).Gives p rest) :
    (readComparison e (negation negated (kind.token :: ts))).Gives
      (isLike kind e p negated) rest := by
  rw [readComparison]
  cases kind <;> cases negated <;> exact Gives.behind (h.map _) _ _

theorem gives_readIndexes {position : Expr}
    (h : (read .disjunction ts).Gives position (.sign .rightBracket :: rest))
    (hnext : (readIndexes (index e position) rest).Gives b rest') :
    (readIndexes e (.sign .leftBracket :: ts)).Gives b rest' := by
  rw [readIndexes]
  exact (h.andThen fun _ => (gives_expect _ _).andThen fun _ => hnext).next

theorem gives_readList (hne : es ≠ []) (h : ∀ e ∈ es, s.Reads e)
    (hstops : (front rest).continues? = none) (hcomma : front rest ≠ .sign .comma) :
    (readList (s.list [] es rest)).Gives es rest := by
  induction es with
  | nil => exact absurd rfl hne
  | cons e es ih =>
    rw [list, List.nil_append, readList]
    have he := h e List.mem_cons_self
    cases es with
    | nil =>
      rw [list]
      refine (he.whole hstops).andThen fun _ => ?_
      rw [acceptToken?_of_ne hcomma]
      exact gives_done _
    | cons e' es =>
      have hes := ih (List.cons_ne_nil _ _) fun e he => h e (List.mem_cons_of_mem _ he)
      rw [list, List.nil_append] at hes
      rw [list]
      refine (he.whole rfl).andThen fun _ => ?_
      exact (hes.map _).next

/-- The list of no expressions is not written, so a lead stands in front of the others alone. -/
theorem list_eq_append (hne : es ≠ []) (lead : List Token) :
    s.list lead es rest = lead ++ s.list [] es rest := by
  cases es with
  | nil => exact absurd rfl hne
  | cons e es => rw [list, list, List.nil_append]

/-- Expressions between commas start with an expression, unless there are none. -/
theorem front_list (h : ∀ e ∈ es, e.Readable) (rest : List Token) :
    Level.Starts .disjunction (front (s.list [] es rest)) ∨ es = [] := by
  cases es with
  | nil => exact .inr rfl
  | cons e es =>
    rw [list, List.nil_append]
    exact .inl ((s.starts_expr (h e List.mem_cons_self) _).mono e.level.rank_le)

theorem gives_readItems (hes : ∀ e ∈ es, e.Readable) (h : ∀ e ∈ es, s.Reads e) :
    (readItems (s.list [] es (.sign .rightParen :: rest))).Gives es rest := by
  rw [readItems]
  obtain hstarts | rfl := front_list (s := s) hes (.sign .rightParen :: rest)
  · have hne : es ≠ [] := by
      rintro rfl
      rw [list] at hstarts
      exact hstarts.ne rfl rfl
    have hcomma : Token.sign .rightParen ≠ .sign .comma := by decide
    have hlist : (readList (s.list [] es (.sign .rightParen :: rest))).Gives es _ :=
      gives_readList hne h rfl hcomma
    rw [acceptToken?_of_ne (hstarts.ne rfl)]
    exact hlist.andThen fun _ => (gives_expect _ _).map _
  · rw [list, acceptToken?_self]
    exact gives_ok _

theorem gives_readQuantifier (q : Option Quantifier) (h : quantifier? (front ts) = none) :
    (readQuantifier (optional (q.map Quantifier.token) ts)).Gives q ts := by
  rw [readQuantifier]
  cases q with
  | none =>
    rw [Option.map_none, optional, Option.toList_none, List.nil_append, accept?_eq_none h]
    exact gives_done none
  | some q =>
    have hq : quantifier? q.token = some q := by cases q <;> rfl
    rw [Option.map_some, optional, Option.toList_some, List.singleton_append, accept?_cons, hq]
    exact (gives_done (some q)).next

theorem gives_readArguments {name : String} {q : Option Quantifier} (hes : ∀ e ∈ es, e.Readable)
    (h : ∀ e ∈ es, s.Reads e) :
    (readArguments name (optional (q.map Quantifier.token)
      (s.list [] es (.sign .rightParen :: rest)))).Gives (call name q es) rest := by
  have hitems : (readItems (s.list [] es (.sign .rightParen :: rest))).Gives es rest :=
    gives_readItems hes h
  generalize hts : s.list [] es (.sign .rightParen :: rest) = ts at hitems
  have hfront : Level.Starts .disjunction (front ts) ∨ front ts = .sign .rightParen := by
    rw [← hts]
    refine (front_list hes _).imp_right ?_
    rintro rfl
    rw [list]
    rfl
  have hquantifier : quantifier? (front ts) = none := by
    obtain hstarts | hparen := hfront
    · exact hstarts.quantifier?_eq
    · rw [hparen]; rfl
  have hstar : front (optional (q.map Quantifier.token) ts) ≠ .sign .star := by
    rcases q with _ | ⟨_ | _⟩
    · obtain hstarts | hparen := hfront
      · exact hstarts.ne rfl
      · exact hparen ▸ show Token.sign .rightParen ≠ .sign .star by decide
    · exact show Token.keyword .distinct ≠ .sign .star by decide
    · exact show Token.keyword .all ≠ .sign .star by decide
  rw [readArguments, acceptToken?_of_ne hstar]
  exact (gives_readQuantifier q hquantifier).before fun _ => hitems.map _

/-- What follows in branches begins with a word that no expression goes on with. -/
theorem continues?_front_branches (branches : Branches) :
    (front (s.branches branches rest)).continues? = none := by
  cases branches <;> rw [Spelling.branches] <;> rfl

theorem gives_readBranches (branches : Branches) (first : Bool)
    (hfirst : first = true → branches.hasBranch = true) (h : ∀ e ∈ branches.operands, s.Reads e) :
    (readBranches first (s.branches branches rest)).Gives branches rest := by
  cases branches with
  | finish =>
    have : first = false := Bool.eq_false_iff.mpr fun h => Bool.false_ne_true (hfirst h)
    subst this
    rw [Spelling.branches, readBranches]
    exact (gives_expect _ _).map _
  | otherwise e =>
    have : first = false := Bool.eq_false_iff.mpr fun h => Bool.false_ne_true (hfirst h)
    subst this
    have he : s.Reads e := h e (by simp [Branches.operands])
    rw [Spelling.branches, readBranches]
    exact ((he.whole rfl).andThen fun _ => (gives_expect _ _).map _).next
  | branch c r more =>
    have hc : s.Reads c := h c (by simp [Branches.operands])
    have hr : s.Reads r := h r (by simp [Branches.operands])
    have hmore := gives_readBranches more false (fun h => absurd h Bool.false_ne_true) fun e he =>
      h e (by simp [Branches.operands, he])
    rw [Spelling.branches, readBranches]
    exact ((hc.whole rfl).andThen fun _ => (gives_expect _ _).andThen fun _ =>
      (hr.whole (continues?_front_branches more)).andThen fun _ => hmore.map _).next

/-! ### Every expression -/

theorem stops_negation {t : Token} (h : t.continues? = some .comparison)
    (hlt : level.rank < Level.comparison.rank) (negated : Bool) :
    level.Stops (front (negation negated (t :: ts))) := by
  cases negated with
  | true => exact Level.stops_of_lt rfl hlt
  | false => exact Level.stops_of_lt h hlt

/-- The operators of a level that chains take operands of the next one. -/
theorem operand_of_chain {op : BinaryOperator} (h : op.level ≠ .comparison) :
    op.level.operand = op.level.tighter ∧ op.level.left = op.level ∧ op.level ≠ .primary := by
  cases op <;> first | exact ⟨rfl, rfl, nofun⟩ | exact absurd rfl h

theorem continueAt_of_chain {op : BinaryOperator} (h : op.level ≠ .comparison) (left : Expr)
    (ts : List Token) :
    continueAt op.level left ts = readChain op.level op.level.tighter left ts := by
  cases op <;> first | rfl | exact absurd rfl h

theorem reads_primary (h : e.Readable) (hlevel : e.level = .primary)
    (hends : ∀ rest, Level.Stops .primary (front rest) → (readPrimary (s.expr e rest)).Gives e rest) :
    s.Reads e := by
  refine reads_of_ends h (by rw [hlevel]; rfl) fun rest hstops => ?_
  rw [hlevel] at hstops ⊢
  rw [Expr.read]
  exact hends rest hstops

/-- A name is a field if neither a point nor arguments follow. -/
theorem gives_readPrimary_name (name : String) {e : Expr}
    (hparen : front ts ≠ .sign .leftParen) (h : (readField name ts).Gives e rest) :
    (readPrimary (s.name name :: ts)).Gives e rest := by
  have hname := s.name?_name name
  rw [readPrimary, accept?_cons]
  generalize s.name name = t at hname
  cases t with
  | identifier n =>
    cases hname
    simp only [Option.map_some, Parsed.behindOne, acceptToken?_of_ne hparen]
    exact h.next
  | quoted n =>
    cases hname
    exact h.next
  | _ => cases hname

section Kinds

variable {arguments items : List Expr} {branches : Branches} {base l p position r : Expr}

theorem reads_literal {v : Value} (h : (Expr.literal v).Readable) : s.Reads (.literal v) := by
  refine reads_primary h rfl fun rest _ => ?_
  have node := h.isSupported
  rw [expr, readPrimary]
  cases v with
  | null => exact (gives_done _).next
  | boolean b => cases b <;> exact (gives_done _).next
  | string text => exact (gives_done _).next
  | number x =>
    have hx : Number.IsLiteral x := by simpa [isSupported, Number.IsLiteral] using node
    have hdigits : ofDigits (s.digits x) = .literal (.number x) := by
      rw [ofDigits, s.read?_digits x hx, Option.getD_some]
    exact hdigits ▸ (gives_done (ofDigits (s.digits x))).next
  | list items => cases node

theorem reads_field {name : String} (h : (field name).Readable) : s.Reads (field name) := by
  refine reads_primary h rfl fun rest hstops => ?_
  have hne : ∀ t : Token, t.continues? = some .primary → front rest ≠ t := by
    rintro t ht rfl
    exact absurd (hstops _ ht) (Nat.lt_irrefl _)
  rw [expr]
  refine gives_readPrimary_name name (hne _ rfl) ?_
  rw [readField, acceptToken?_of_ne (hne _ rfl)]
  exact gives_done _

theorem reads_qualified {table name : String} (h : (qualified table name).Readable) :
    s.Reads (qualified table name) := by
  refine reads_primary h rfl fun rest _ => ?_
  rw [expr]
  refine gives_readPrimary_name table (show Token.sign .dot ≠ _ by decide) ?_
  rw [readField, acceptToken?_self]
  exact ((gives_expectName (s.name?_name name)).map _).next

theorem reads_callStar {name : String} (h : (callStar name).Readable) : s.Reads (callStar name) := by
  refine reads_primary h rfl fun rest _ => ?_
  rw [expr, readPrimary]
  refine Gives.next (Gives.next ?_)
  rw [readArguments]
  exact ((gives_expect _ _).map _).next

theorem reads_call {name : String} {q : Option Quantifier} (h : (call name q arguments).Readable)
    (harguments : ∀ o ∈ arguments, s.Reads o) : s.Reads (call name q arguments) := by
  refine reads_primary h rfl fun rest _ => ?_
  rw [expr, readPrimary]
  exact (gives_readArguments (fun o ho => h.operand (List.mem_map_of_mem ho)) harguments).next.next

theorem reads_cast {target : CastType} (h : (cast e target).Readable) (he : s.Reads e) :
    s.Reads (cast e target) := by
  refine reads_primary h rfl fun rest _ => ?_
  have htype : (readType (s.name target.name :: .sign .rightParen :: rest)).Gives target
      (.sign .rightParen :: rest) := by
    rw [readType]
    refine (gives_expectName (s.name?_name _)).andThen fun _ => ?_
    rw [target.ofName?_name]
    exact gives_done _
  rw [expr, readPrimary]
  exact ((gives_expect _ _).andThen fun _ => (he.whole rfl).andThen fun _ =>
    (gives_expect _ _).andThen fun _ => htype.andThen fun _ => (gives_expect _ _).map _).next

theorem reads_paren (h : (paren e).Readable) (he : s.Reads e) : s.Reads (paren e) := by
  refine reads_primary h rfl fun rest _ => ?_
  -- a query could stand between parentheses too
  have hselect := (s.starts_expr (h.operand (.head _)) (.sign .rightParen :: rest)).ne
    (show (Token.keyword .select).starts? = none from rfl)
  rw [expr, readPrimary]
  simp only [accept?_cons, Option.map_some, Parsed.behindOne, if_neg hselect]
  exact ((he.whole rfl).andThen fun _ => (gives_expect _ _).map _).next

theorem reads_searchedCase (h : (searchedCase branches).Readable)
    (hbranches : ∀ o ∈ branches.operands, s.Reads o) : s.Reads (searchedCase branches) := by
  refine reads_primary h rfl fun rest _ => ?_
  have node := h.isSupported
  have hwhen : front (s.branches branches rest) = .keyword .when := by
    cases branches <;> first | (rw [Spelling.branches]; rfl) | cases node
  have hread : (readBranches true (s.branches branches rest)).Gives branches rest :=
    gives_readBranches branches true (fun _ => node) hbranches
  rw [expr, readPrimary]
  simp only [accept?_cons, Option.map_some, Parsed.behindOne, if_pos hwhen]
  exact (hread.map _).next

theorem reads_simpleCase (h : (simpleCase base branches).Readable) (hbase : s.Reads base)
    (hbranches : ∀ o ∈ branches.operands, s.Reads o) : s.Reads (simpleCase base branches) := by
  refine reads_primary h rfl fun rest _ => ?_
  -- the base starts an expression, so it is not taken for the first branch
  have hwhen := (s.starts_expr (h.operand (.head _)) (s.branches branches rest)).ne
    (show (Token.keyword .when).starts? = none from rfl)
  have hread : (readBranches true (s.branches branches rest)).Gives branches rest :=
    gives_readBranches branches true (fun _ => h.isSupported) hbranches
  rw [expr, readPrimary]
  simp only [accept?_cons, Option.map_some, Parsed.behindOne, if_neg hwhen]
  exact ((hbase.whole (continues?_front_branches branches)).andThen fun _ => hread.map _).next

theorem reads_unary {op : UnaryOperator} (h : (unary op e).Readable) (he : s.Reads e) :
    s.Reads (unary op e) := by
  refine reads_of_ends h (by cases op <;> rfl) fun rest hstops => ?_
  have hends := he.ends (h.fits (.head _)) hstops
  rw [expr]
  cases op with
  | not => rw [level, UnaryOperator.level, Expr.read]; exact (hends.map _).next
  | minus => rw [level, UnaryOperator.level, Expr.read]; exact (hends.map _).next

theorem reads_isNull {negated : Bool} (h : (isNull e negated).Readable) (he : s.Reads e) :
    s.Reads (isNull e negated) := by
  refine reads_of_ends h rfl fun rest _ => ?_
  rw [expr, level, Expr.read]
  exact (he.ends (h.fits (.head _)) (Level.stops_of_lt rfl (by decide))).andThen fun _ =>
    gives_readComparison_isNull negated rest

theorem reads_isIn {negated : Bool} (h : (isIn e items negated).Readable) (he : s.Reads e)
    (hitems : ∀ o ∈ items, s.Reads o) : s.Reads (isIn e items negated) := by
  refine reads_of_ends h rfl fun rest _ => ?_
  have hreadable : ∀ o ∈ items, o.Readable :=
    fun o ho => h.operand (.tail _ (List.mem_map_of_mem ho))
  rw [expr, level, Expr.read]
  exact (he.ends (h.fits (.head _)) (stops_negation rfl (by decide) negated)).andThen fun _ =>
    gives_readComparison_isIn negated (gives_readItems hreadable hitems)

theorem reads_isLike {kind : PatternKind} {negated : Bool} (h : (isLike kind e p negated).Readable)
    (he : s.Reads e) (hp : s.Reads p) : s.Reads (isLike kind e p negated) := by
  have hkind : kind.token.continues? = some .comparison := by cases kind <;> rfl
  have hcomparison : Level.addition.rank ≤ Level.comparison.rank := by decide
  refine reads_of_ends h rfl fun rest hstops => ?_
  have hpattern := hp.ends (h.fits (.tail _ (.head _))) (hstops.mono hcomparison)
  rw [expr, level, Expr.read]
  exact (he.ends (h.fits (.head _)) (stops_negation hkind (by decide) negated)).andThen fun _ =>
    gives_readComparison_isLike negated hpattern

theorem reads_index (h : (index base position).Readable) (hbase : s.Reads base)
    (hposition : s.Reads position) : s.Reads (index base position) := by
  refine reads_of_own h fun rest b rest' _ hnext => ?_
  rw [expr]
  exact hbase .indexing _ b rest' (h.fits (.head _)) (Level.stops_of_lt rfl (by decide))
    (gives_readIndexes (hposition.whole rfl) hnext)

/-- Comparisons do not chain: both operands stand on the next level. -/
theorem reads_comparison {op : BinaryOperator} (hop : op.level = .comparison)
    (h : (binary op l r).Readable) (hl : s.Reads l) (hr : s.Reads r) : s.Reads (binary op l r) := by
  have hleft : l.level.rank ≤ op.level.left.rank := h.fits (.head _)
  have hright : r.level.rank ≤ op.level.tighter.rank := h.fits (.tail _ (.head _))
  have hstop : ∀ ts, Level.Stops .addition (front (op.token :: ts)) := fun ts =>
    Level.stops_of_lt (hop ▸ op.continues?_token) (by decide)
  rw [hop] at hleft hright
  refine reads_of_ends h (by rw [level, hop]; rfl) fun rest hstops => ?_
  rw [level, hop] at hstops
  rw [expr, level, hop, Expr.read]
  exact (hl.ends hleft (hstop _)).andThen fun _ =>
    gives_readComparison hop (hr.ends hright (hstops.mono (by decide)))

/-- Other operators group to the left: the reader of their level goes on behind the left operand. -/
theorem reads_chain {op : BinaryOperator} (hop : op.level ≠ .comparison)
    (h : (binary op l r).Readable) (hl : s.Reads l) (hr : s.Reads r) : s.Reads (binary op l r) := by
  obtain ⟨hoperand, hleft, hprimary⟩ := operand_of_chain hop
  have hlt : op.level.tighter.rank < op.level.rank := by
    have := Level.rank_tighter hprimary
    omega
  refine reads_of_own h fun rest b rest' hstops hnext => ?_
  rw [level] at hstops hnext ⊢
  rw [hoperand] at hstops
  rw [continueAt_of_chain hop] at hnext
  rw [expr]
  refine hl op.level _ b rest' (hleft ▸ h.fits (.head _))
    (hoperand ▸ Level.stops_of_lt op.continues?_token hlt) ?_
  rw [continueAt_of_chain hop]
  exact gives_readChain (hr.ends (h.fits (.tail _ (.head _))) hstops) hnext

end Kinds

/-- A readable expression is read back. -/
theorem reads (h : e.Readable) : s.Reads e := by
  induction h with
  | @intro e node fits operands ih =>
    have h : e.Readable := .intro node fits operands
    have hreads : ∀ {level o}, (level, o) ∈ e.slots → s.Reads o := fun ho => ih _ ho
    cases e with
    | literal v => exact reads_literal h
    | field name => exact reads_field h
    | qualified table name => exact reads_qualified h
    | binary op l r =>
      have hl := hreads (.head _)
      have hr := hreads (.tail _ (.head _))
      by_cases hop : op.level = .comparison
      · exact reads_comparison hop h hl hr
      · exact reads_chain hop h hl hr
    | unary op e => exact reads_unary h (hreads (.head _))
    | isNull e negated => exact reads_isNull h (hreads (.head _))
    | isIn e items negated =>
      exact reads_isIn h (hreads (.head _)) fun o ho => hreads (.tail _ (List.mem_map_of_mem ho))
    | isLike kind e p negated => exact reads_isLike h (hreads (.head _)) (hreads (.tail _ (.head _)))
    | cast e target => exact reads_cast h (hreads (.head _))
    | searchedCase branches =>
      exact reads_searchedCase h fun o ho => hreads (List.mem_map_of_mem ho)
    | simpleCase base branches =>
      exact reads_simpleCase h (hreads (.head _)) fun o ho =>
        hreads (.tail _ (List.mem_map_of_mem ho))
    | call name q arguments => exact reads_call h fun o ho => hreads (List.mem_map_of_mem ho)
    | callStar name => exact reads_callStar h
    | index base position => exact reads_index h (hreads (.head _)) (hreads (.tail _ (.head _)))
    | paren e => exact reads_paren h (hreads (.head _))
    | aliased | window => cases node

end Spelling

end TableQuery
