/-
Queries are read back from their tokens.

Behind an expression, an item or a source the readers look at one token to decide whether they go on.
`Token.clause?` orders the tokens that a clause of a query begins with, and what may follow a query,
so that what stands behind a clause is a token of a later one (`Token.Later`).

* `Spelling.gives_readWindowed` — a call over a window is read back;
* `Spelling.gives_read` — a query is read back whatever follows it;
* `Statement.ofTokens_grouped` — a query with parentheses where they are needed is read as it is.
-/
import TableQuery.Proofs.Numerals
import TableQuery.Proofs.ReadExpr

namespace TableQuery

/-! ### Ends of clauses -/

namespace Token

/-- The place among the clauses of a query at which a token begins one; the tokens that may follow a
query come last. -/
def clause? : Token → Option Nat
  | .keyword .«from» => some 0
  | .keyword .left => some 1
  | .keyword .«where» => some 2
  | .keyword .group => some 3
  | .keyword .having => some 4
  | .keyword .order => some 5
  | .keyword .limit => some 6
  | .sign .rightParen => some 7
  | .sign .semicolon => some 7
  | .eof => some 7
  | _ => none

/-- The token begins a clause that does not come before the given place, or follows the query. -/
def Later (k : Nat) (t : Token) : Prop := ∃ l, t.clause? = some l ∧ k ≤ l

/-- The token ends an expression, a window and a name. -/
structure Ends (t : Token) : Prop where
  continues?_eq : t.continues? = none
  ne_dot : t ≠ .sign .dot
  ne_as : t ≠ .keyword .as
  name?_eq : t.name? = none

variable {k l : Nat} {t : Token} {ts us : List Token}

theorem Ends.isWord_eq (h : t.Ends) (word : String) : t.isWord word = false := by
  have hname := h.name?_eq
  cases t <;> first | rfl | cases hname

theorem Later.ends (h : t.Later k) : t.Ends := by
  obtain ⟨l, hl, _⟩ := h
  unfold clause? at hl
  split at hl <;> first | exact ⟨rfl, by decide, by decide, rfl⟩ | cases hl

theorem Later.ne_comma (h : t.Later k) : t ≠ .sign .comma := by
  rintro rfl
  obtain ⟨l, hl, _⟩ := h
  cases hl

theorem Later.mono (h : t.Later l) (hle : k ≤ l) : t.Later k := by
  obtain ⟨m, hm, hlm⟩ := h
  exact ⟨m, hm, Nat.le_trans hle hlm⟩

/-- A token of an earlier clause does not stand there. -/
theorem Later.ne {u : Token} (h : t.Later (k + 1)) (hu : u.clause? = some k) : t ≠ u := by
  rintro rfl
  obtain ⟨l, hl, hlt⟩ := h
  rw [hu] at hl
  cases hl
  omega

/-- What is written of a clause begins with its word, or nothing is written. -/
theorem Later.lead {u : Token} (h : (front ts).Later (k + 1)) (hu : u.clause? = some k)
    (hus : front us = u ∨ us = ts) : (front us).Later k := by
  obtain rfl | rfl := hus
  · exact ⟨k, hu, Nat.le_refl k⟩
  · exact h.mono (Nat.le_succ k)

end Token

namespace Spelling

open Parse Token TableQuery.Expr

variable {s : Spelling} {e : Expr} {es : List Expr} {rest ts : List Token}

/-! ### Counts and bounds -/

theorem ofDigitChars_ge (cs : List Char) (n : Nat) : n ≤ Nat.ofDigitChars 10 cs n := by
  rw [Nat.ofDigitChars_eq_ofDigitChars_zero]
  have : 0 < 10 ^ cs.length := Nat.pow_pos (by decide)
  exact Nat.le_trans (Nat.le_mul_of_pos_left n this) (Nat.le_add_right _ _)

/-- Digits whose value is small enough are counted up to it. -/
theorem countFrom_eq_ok {cs : List Char} (hdigits : ∀ c ∈ cs, c.isDigit = true) (n : Nat)
    (h : Nat.ofDigitChars 10 cs n < UInt64.size) :
    countFrom n cs = .ok (Nat.ofDigitChars 10 cs n) := by
  induction cs generalizing n with
  | nil => rfl
  | cons c cs ih =>
    have hc := hdigits c List.mem_cons_self
    rw [Nat.ofDigitChars_cons] at h ⊢
    have hsmall : ¬ UInt64.size ≤ 10 * n + (c.toNat - '0'.toNat) := by
      have := ofDigitChars_ge cs (10 * n + (c.toNat - '0'.toNat))
      omega
    rw [countFrom, hc]
    simp only [Bool.not_true, Bool.false_eq_true, if_false, if_neg hsmall]
    exact ih (fun c hc => hdigits c (List.mem_cons_of_mem _ hc)) _ h

theorem gives_expectCount {n : Nat} (h : Countable n) (ts : List Token) :
    (expectCount (count n :: ts)).Gives n ts := by
  have hcount : countFrom 0 (toString n).toList = .ok n := by
    have hvalue : Nat.ofDigitChars 10 (Nat.toDigits 10 n) 0 = n := Nat.ofDigitChars_ten_toDigits
    rw [Nat.toString_eq_ofList_toDigits, String.toList_ofList, countFrom_eq_ok, hvalue]
    · exact fun c hc => Nat.isDigit_of_mem_toDigits (by decide) (by decide) hc
    · rw [hvalue]; exact h
  rw [expectCount]
  refine (gives_ok (Parsed.behindOne (toString n))).andThen fun _ => ?_
  simp only [Parsed.behindOne, hcount]
  exact gives_done n

theorem gives_readBound {b : Bound} (h : b.Supported) (ts : List Token) :
    (readBound (b.tokens ++ ts)).Gives b ts := by
  have hunbounded : (identifier "unbounded").isWord "unbounded" = true := by decide
  have hcurrent : (identifier "current").isWord "current" = true := by decide
  have hpreceding : (identifier "preceding").isWord "preceding" = true := by decide
  have hfollowing : (identifier "following").isWord "following" = true := by decide
  have hnotUnbounded : acceptWord? "unbounded" (identifier "current" :: identifier "row" :: ts) =
      none := acceptWord?_eq_none (show (identifier "current").isWord "unbounded" = false by decide)
  have hnotPreceding : acceptWord? "preceding" (identifier "following" :: ts) = none :=
    acceptWord?_eq_none (show (identifier "following").isWord "preceding" = false by decide)
  have hnotCount : ∀ n us, acceptWord? "unbounded" (count n :: us) = none ∧
      acceptWord? "current" (count n :: us) = none :=
    fun n us => ⟨acceptWord?_eq_none rfl, acceptWord?_eq_none rfl⟩
  rw [readBound]
  cases b with
  | unboundedPreceding =>
    simp only [Bound.tokens, List.cons_append, List.nil_append, acceptWord?_cons hunbounded,
      Parsed.behindOne, acceptWord?_cons hpreceding]
    exact (gives_ok _).next
  | unboundedFollowing =>
    simp only [Bound.tokens, List.cons_append, List.nil_append, acceptWord?_cons hunbounded,
      Parsed.behindOne, hnotPreceding]
    exact ((gives_expectWord hfollowing).map _).next
  | currentRow =>
    simp only [Bound.tokens, List.cons_append, List.nil_append, hnotUnbounded,
      Parsed.behindOne, acceptWord?_cons hcurrent]
    exact ((gives_expectWord (by decide)).map _).next
  | preceding n =>
    simp only [Bound.tokens, List.cons_append, List.nil_append, hnotCount]
    refine (gives_expectCount h _).andThen fun _ => ?_
    simp only [acceptWord?_cons hpreceding]
    exact gives_ok _
  | following n =>
    simp only [Bound.tokens, List.cons_append, List.nil_append, hnotCount]
    refine (gives_expectCount h _).andThen fun _ => ?_
    simp only [hnotPreceding]
    exact (gives_expectWord hfollowing).map _

theorem gives_readExtent {x : Extent} (hfirst : x.first.Supported) (hlast : x.last.Supported)
    (ts : List Token) : (readExtent (x.tokens ++ ts)).Gives x ts := by
  have htokens : x.tokens ++ ts = identifier "rows" :: identifier "between" ::
      (x.first.tokens ++ keyword .and :: (x.last.tokens ++ ts)) := by
    simp [Extent.tokens]
  rw [htokens, readExtent, acceptWord?_cons (by decide)]
  exact ((gives_expectWord (by decide)).andThen fun _ =>
    (gives_readBound hfirst _).andThen fun _ => (gives_expect _ _).andThen fun _ =>
    (gives_readBound hlast ts).map _).next

/-! ### Windows -/

/-- A reader of calls over a window stops behind the expression. -/
def ReadsWindowed (s : Spelling) (e : Expr) : Prop :=
  ∀ rest, (front rest).continues? = none → (front rest).isWord "over" = false →
    (readWindowed (s.expr e rest)).Gives e rest

theorem orderItems_eq_append {items : List OrderItem} (hne : items ≠ []) (lead : List Token) :
    s.orderItems lead items rest = lead ++ s.orderItems [] items rest := by
  cases items with
  | nil => exact absurd rfl hne
  | cons i items => cases i; rw [orderItems, orderItems, List.nil_append]

theorem gives_readDirection (d : Direction) (ts : List Token) :
    (readDirection (d.token :: ts)).Gives d ts := by
  cases d <;> exact (gives_done _).next

theorem gives_readOrderItems {items : List OrderItem} (hne : items ≠ [])
    (h : ∀ i ∈ items, s.ReadsWindowed i.expr) (hcomma : front rest ≠ .sign .comma) :
    (readOrderItems (s.orderItems [] items rest)).Gives items rest := by
  induction items with
  | nil => exact absurd rfl hne
  | cons i items ih =>
    obtain ⟨e, d⟩ := i
    have he : s.ReadsWindowed e := h _ List.mem_cons_self
    have hd : ∀ ts, (front (d.token :: ts)).continues? = none ∧
        (front (d.token :: ts)).isWord "over" = false := by
      intro ts
      cases d <;> exact ⟨rfl, rfl⟩
    rw [orderItems, List.nil_append, readOrderItems]
    refine (he _ (hd _).1 (hd _).2).andThen fun _ => (gives_readDirection d _).andThen fun _ => ?_
    cases items with
    | nil =>
      rw [orderItems, acceptToken?_of_ne hcomma]
      exact gives_done _
    | cons i' items =>
      have hitems := ih (List.cons_ne_nil _ _) fun i hi => h i (List.mem_cons_of_mem _ hi)
      rw [orderItems_eq_append (List.cons_ne_nil _ _)]
      exact (hitems.map _).next

theorem acceptClause?_self (k : Keyword) (ts : List Token) :
    ∃ suffix taken, acceptClause? k (keyword k :: keyword .«by» :: ts) =
      some (.ok ⟨(), ts, suffix, taken⟩) := by
  obtain ⟨suffix, taken, h⟩ := gives_expect (keyword .«by») ts
  rw [acceptClause?, acceptToken?_self]
  simp only [Parsed.behindOne, h]
  exact ⟨suffix.trans (List.suffix_cons _ _), Nat.le_succ_of_le taken, rfl⟩

/-- Without items nothing is written, and no word that begins them follows. -/
theorem gives_readOrder {items : List OrderItem} (h : ∀ i ∈ items, s.ReadsWindowed i.expr)
    (horder : front rest ≠ .keyword .order) (hcomma : front rest ≠ .sign .comma) :
    (readOrder (s.orderItems [.keyword .order, .keyword .«by»] items rest)).Gives items rest := by
  rw [readOrder]
  by_cases hne : items = []
  · subst hne
    rw [orderItems, acceptClause?, acceptToken?_of_ne horder]
    exact gives_done _
  · obtain ⟨suffix, taken, hclause⟩ := acceptClause?_self .order (s.orderItems [] items rest)
    rw [orderItems_eq_append hne, List.cons_append, List.cons_append, List.nil_append, hclause]
    exact (gives_readOrderItems hne h hcomma).behind _ _

theorem gives_readPartition (hne : es ≠ []) (h : ∀ e ∈ es, e.Readable)
    (hstops : (front rest).continues? = none) (hcomma : front rest ≠ .sign .comma) :
    (readPartition (s.list [identifier "partition", keyword .«by»] es rest)).Gives es rest := by
  rw [list_eq_append hne, List.cons_append, List.cons_append, List.nil_append, readPartition,
    acceptWord?_cons (by decide)]
  exact ((gives_expect _ _).andThen fun _ =>
    gives_readList hne (fun e he => reads (h e he)) hstops hcomma).next

/-- A call over a window is read back, and so is any other expression. -/
theorem gives_readWindowed (h : e.Windowed Readable) : s.ReadsWindowed e := by
  induction h with
  | @plain e h =>
    intro rest hstops hover
    rw [readWindowed]
    refine ((reads h).whole hstops).andThen fun _ => ?_
    rw [acceptWord?_eq_none hover]
    cases e.call? <;> exact gives_done e
  | @window function partition order extent hcall hfunction hne hpartition _ hfirst hlast ih =>
    intro rest _ _
    obtain ⟨parts, hparts⟩ := Option.isSome_iff_exists.mp hcall
    rw [expr, readWindowed]
    refine ((reads hfunction).whole rfl).andThen fun _ => ?_
    rw [hparts, acceptWord?_cons (by decide)]
    refine Gives.next ?_
    -- the range comes last and is always written
    have hextent := gives_readExtent hfirst hlast (.sign .rightParen :: rest)
    generalize hts : extent.tokens ++ sign .rightParen :: rest = ts at hextent
    have hrows : front ts = identifier "rows" := by rw [← hts]; rfl
    have horder : (readOrder (s.orderItems [keyword .order, keyword .«by»] order ts)).Gives order
        ts := gives_readOrder ih (by rw [hrows]; decide) (by rw [hrows]; decide)
    have hfront : front (s.orderItems [keyword .order, keyword .«by»] order ts) = keyword .order ∨
        front (s.orderItems [keyword .order, keyword .«by»] order ts) = identifier "rows" := by
      cases order with
      | nil => rw [orderItems]; exact .inr hrows
      | cons i items => cases i; rw [orderItems]; exact .inl rfl
    rw [readWindow]
    refine (gives_expect _ _).andThen fun _ =>
      (gives_readPartition hne hpartition ?_ ?_).andThen fun _ => horder.andThen fun _ =>
      hextent.andThen fun _ => (gives_expect _ _).map _
    · obtain h | h := hfront <;> rw [h] <;> rfl
    · obtain h | h := hfront <;> rw [h] <;> decide

/-! ### Items -/

theorem startsTableWildcard_cons {t : Token} (h : front ts ≠ .sign .dot) :
    Statement.startsTableWildcard (t :: ts) = false := by
  unfold Statement.startsTableWildcard
  split
  · rename_i heq
    cases heq
    exact absurd rfl h
  · rfl

theorem front_negation_ne {t : Token} (h : t ≠ .sign .dot) (negated : Bool) (ts : List Token) :
    front (negation negated (t :: ts)) ≠ .sign .dot := by
  cases negated with
  | true => exact show Token.keyword .not ≠ _ by decide
  | false => exact h

/-- An expression is not taken for all columns of a table. -/
theorem startsTableWildcard_expr (h : e.Readable) (hrest : front rest ≠ .sign .dot) :
    Statement.startsTableWildcard (s.expr e rest) = false := by
  have hdot : (sign .dot).starts? = none := rfl
  -- by induction along the first operands: what comes first is a name without a dot behind it, a name
  -- with a dot and a field behind it, or no name
  induction h generalizing rest with
  | @intro e node _ operands ih =>
    cases e with
    | literal | field => rw [expr]; exact startsTableWildcard_cons hrest
    | qualified table name =>
      have hstar : s.name name ≠ .sign .star := by
        intro h
        have := s.name?_name name
        rw [h] at this
        cases this
      rw [expr]
      generalize s.name name = t at hstar
      unfold Statement.startsTableWildcard
      split
      · rename_i heq
        cases heq
        exact absurd rfl hstar
      · rfl
    | binary op l r =>
      rw [expr]
      exact ih _ (.head _) (show op.token ≠ _ by cases op <;> decide)
    | isNull e negated => rw [expr]; exact ih _ (.head _) (show Token.keyword _ ≠ _ by decide)
    | isIn e items negated => rw [expr]; exact ih _ (.head _) (front_negation_ne (by decide) _ _)
    | isLike kind e p negated =>
      rw [expr]
      exact ih _ (.head _) (front_negation_ne (by cases kind <;> decide) _ _)
    | index base position => rw [expr]; exact ih _ (.head _) (show Token.sign _ ≠ _ by decide)
    | unary op e =>
      rw [expr]
      exact startsTableWildcard_cons ((s.starts_expr (operands _ (.head _)) rest).ne hdot)
    | paren e =>
      rw [expr]
      exact startsTableWildcard_cons ((s.starts_expr (operands _ (.head _)) _).ne hdot)
    | simpleCase base branches =>
      rw [expr]
      exact startsTableWildcard_cons ((s.starts_expr (operands _ (.head _)) _).ne hdot)
    | searchedCase branches =>
      rw [expr]
      refine startsTableWildcard_cons ?_
      cases branches <;> rw [Spelling.branches] <;> exact show Token.keyword _ ≠ _ by decide
    | cast | call | callStar =>
      rw [expr]
      exact startsTableWildcard_cons (show Token.sign _ ≠ _ by decide)
    | aliased | window => cases node

/-- A call over a window begins like the call. -/
theorem front_windowed (h : e.Windowed Readable) (hrest : front rest ≠ .sign .dot) :
    front (s.expr e rest) ≠ .sign .star ∧
      Statement.startsTableWildcard (s.expr e rest) = false := by
  have hstar : (sign .star).starts? = none := rfl
  cases h with
  | plain h => exact ⟨(s.starts_expr h rest).ne hstar, startsTableWildcard_expr h hrest⟩
  | window _ hfunction =>
    rw [expr]
    exact ⟨(s.starts_expr hfunction _).ne hstar,
      startsTableWildcard_expr hfunction (show identifier _ ≠ _ by decide)⟩

theorem gives_readAlias_none (h : (front ts).Ends) : (Statement.readAlias ts).Gives none ts := by
  rw [Statement.readAlias, acceptToken?_of_ne h.ne_as, accept?_eq_none h.name?_eq]
  exact gives_done none

theorem gives_readAlias_some (name : String) (ts : List Token) :
    (Statement.readAlias (keyword .as :: s.name name :: ts)).Gives (some name) ts := by
  rw [Statement.readAlias, acceptToken?_self]
  exact ((gives_expectName (s.name?_name name)).map some).next

theorem gives_readItem {i : SelectItem} (h : i.Of Readable) (hrest : (front rest).Ends) :
    (Statement.readItem (s.item i rest)).Gives i rest := by
  have hname : ∀ name ts, front (s.name name :: ts) ≠ .sign .star :=
    fun name ts => (s.starts_name name .primary).ne rfl
  rw [Statement.readItem]
  cases h with
  | wildcard => exact (gives_done SelectItem.wildcard).next
  | tableWildcard table =>
    rw [item, acceptToken?_of_ne (hname _ _)]
    exact (gives_expectName (s.name?_name table)).andThen fun _ =>
      (gives_expect _ _).andThen fun _ => (gives_expect _ _).map _
  | @expr e h =>
    obtain ⟨hstar, hwildcard⟩ := front_windowed (s := s) h hrest.ne_dot
    have he := gives_readWindowed (s := s) h rest hrest.continues?_eq (hrest.isWord_eq _)
    rw [item, acceptToken?_of_ne hstar]
    simp only [hwildcard, Bool.false_eq_true, if_false]
    exact he.andThen fun _ => (gives_readAlias_none hrest).map _
  | @aliased e name h =>
    have hdot : front (keyword .as :: s.name name :: rest) ≠ .sign .dot :=
      show keyword .as ≠ _ by decide
    obtain ⟨hstar, hwildcard⟩ := front_windowed (s := s) h hdot
    have he := gives_readWindowed (s := s) h (keyword .as :: s.name name :: rest) rfl rfl
    rw [item, expr, acceptToken?_of_ne hstar]
    simp only [hwildcard, Bool.false_eq_true, if_false]
    exact he.andThen fun _ => (gives_readAlias_some name rest).map _

theorem gives_readSelectItems {items : List SelectItem} (hne : items ≠ [])
    (h : ∀ i ∈ items, i.Of Readable) (hrest : (front rest).Ends)
    (hcomma : front rest ≠ .sign .comma) :
    (Statement.readItems (s.items [] items rest)).Gives items rest := by
  induction items with
  | nil => exact absurd rfl hne
  | cons i items ih =>
    have hi := h i List.mem_cons_self
    rw [Spelling.items, List.nil_append, Statement.readItems]
    cases items with
    | nil =>
      rw [Spelling.items]
      refine (gives_readItem hi hrest).andThen fun _ => ?_
      rw [acceptToken?_of_ne hcomma]
      exact gives_done _
    | cons i' items =>
      have hitems := ih (List.cons_ne_nil _ _) fun i hi => h i (List.mem_cons_of_mem _ hi)
      have hends : (front (sign .comma :: s.item i' (s.items [.sign .comma] items rest))).Ends :=
        ⟨rfl, show sign .comma ≠ _ by decide, show sign .comma ≠ _ by decide, rfl⟩
      rw [Spelling.items, List.nil_append] at hitems
      rw [Spelling.items]
      exact (gives_readItem hi hends).andThen fun _ => (hitems.map _).next

/-! ### Clauses -/

theorem gives_optional {k : Keyword} {e : Option Expr} (h : ∀ o ∈ e, o.Readable)
    (hstops : (front rest).continues? = none) (hk : front rest ≠ keyword k) :
    (Token.optional k (Expr.read .disjunction) (s.clause k e rest)).Gives e rest := by
  cases e with
  | none =>
    rw [clause, Token.optional, acceptToken?_of_ne hk]
    exact gives_done none
  | some e =>
    rw [clause, Token.optional, acceptToken?_self]
    exact (((reads (h e rfl)).whole hstops).map some).next

theorem gives_readGroupBy (h : ∀ e ∈ es, e.Readable) (hstops : (front rest).continues? = none)
    (hcomma : front rest ≠ .sign .comma) (hgroup : front rest ≠ keyword .group) :
    (Statement.readGroupBy (s.list [keyword .group, keyword .«by»] es rest)).Gives es rest := by
  rw [Statement.readGroupBy]
  by_cases hne : es = []
  · subst hne
    rw [list, acceptClause?, acceptToken?_of_ne hgroup]
    exact gives_done _
  · obtain ⟨suffix, taken, hclause⟩ := acceptClause?_self .group (s.list [] es rest)
    rw [list_eq_append hne, List.cons_append, List.cons_append, List.nil_append, hclause]
    exact (gives_readList hne (fun e he => reads (h e he)) hstops hcomma).behind _ _

theorem gives_readLimit {l : Option Limit} (h : ∀ o ∈ l, o.Supported)
    (hlimit : front rest ≠ keyword .limit) :
    (Token.optional .limit Statement.readLimit (l.elim [] Limit.tokens ++ rest)).Gives l rest := by
  cases l with
  | none =>
    rw [Option.elim_none, List.nil_append, Token.optional, acceptToken?_of_ne hlimit]
    exact gives_done none
  | some l =>
    obtain ⟨offset, count⟩ := l
    obtain ⟨hoffset, n, rfl, hn⟩ := h _ rfl
    have hcounts : (Statement.readLimit
        (Token.count offset :: sign .comma :: Token.count n :: rest)).Gives ⟨offset, some n⟩
        rest := by
      rw [Statement.readLimit]
      exact (gives_expectCount hoffset _).andThen fun _ => ((gives_expectCount hn rest).map _).next
    rw [Option.elim_some, Limit.tokens, Token.optional]
    exact (hcounts.map some).next

section

variable {K : Keyword} {k : Nat} (hK : (keyword K).clause? = some k)
  (h : (front rest).Later (k + 1))

include hK h

theorem later_clause (e : Option Expr) : (front (s.clause K e rest)).Later k := by
  refine h.lead hK ?_
  cases e with
  | none => exact .inr rfl
  | some e => exact .inl rfl

theorem later_list (lead : List Token) (es : List Expr) :
    (front (s.list (keyword K :: lead) es rest)).Later k := by
  refine h.lead hK ?_
  cases es with
  | nil => rw [list]; exact .inr rfl
  | cons e es => rw [list]; exact .inl rfl

theorem later_orderItems (lead : List Token) (items : List OrderItem) :
    (front (s.orderItems (keyword K :: lead) items rest)).Later k := by
  refine h.lead hK ?_
  cases items with
  | nil => rw [orderItems]; exact .inr rfl
  | cons i items => cases i; rw [orderItems]; exact .inl rfl

end

theorem later_limit {l : Option Limit} (h : ∀ o ∈ l, o.Supported) (hrest : (front rest).Later 7) :
    (front (l.elim [] Limit.tokens ++ rest)).Later 6 := by
  refine hrest.lead (u := keyword .limit) rfl ?_
  cases l with
  | none => exact .inr rfl
  | some l =>
    obtain ⟨offset, count⟩ := l
    obtain ⟨_, n, rfl, _⟩ := h _ rfl
    exact .inl rfl

/-- The clauses begin with the word of a clause behind the source, or with what follows them. -/
theorem later_clauses {c : Clauses} (h : c.Of Readable) (hrest : (front rest).Later 7) :
    (front (s.clauses c rest)).Later 2 :=
  later_clause rfl (later_list rfl (later_clause rfl (later_orderItems rfl
    (later_limit h.limit hrest) _ _) _) _ _) _

/-- The clauses are read back, each up to the token that begins a later one. -/
theorem gives_readClauses {c : Clauses} (h : c.Of Readable) (hrest : (front rest).Later 7) :
    (Statement.readClauses c.quantifier c.items (s.clauses c rest)).Gives c rest := by
  have hlimit := later_limit h.limit hrest
  have horder := later_orderItems (s := s) (K := .order) rfl hlimit [keyword .«by»] c.orderBy
  have hhaving := later_clause (s := s) (K := .having) rfl horder c.having
  have hgroup := later_list (s := s) (K := .group) rfl hhaving [keyword .«by»] c.groupBy
  rw [Statement.readClauses, clauses]
  exact (gives_optional h.condition hgroup.ends.continues?_eq (hgroup.ne rfl)).andThen fun _ =>
    (gives_readGroupBy h.groupBy hhaving.ends.continues?_eq hhaving.ne_comma
      (hhaving.ne rfl)).andThen fun _ =>
    (gives_optional h.having horder.ends.continues?_eq (horder.ne rfl)).andThen fun _ =>
    (gives_readOrder (fun i hi => gives_readWindowed (h.orderBy i hi)) (hlimit.ne rfl)
      hlimit.ne_comma).andThen fun _ =>
    (gives_readLimit h.limit (hrest.ne rfl)).map _

/-! ### Queries -/

theorem quantifier?_front_item {i : SelectItem} (h : i.Of Readable) (rest : List Token) :
    quantifier? (front (s.item i rest)) = none := by
  have hwindowed : ∀ e ts, e.Windowed Readable → quantifier? (front (s.expr e ts)) = none := by
    intro e ts h
    cases h with
    | plain h => exact (s.starts_expr h ts).quantifier?_eq
    | window _ hfunction => rw [expr]; exact (s.starts_expr hfunction _).quantifier?_eq
  cases h with
  | wildcard => rfl
  | tableWildcard table => exact (s.starts_name table .primary).quantifier?_eq
  | expr h => exact hwindowed _ _ h
  | aliased name h => rw [item, expr]; exact hwindowed _ _ h

theorem quantifier?_front_items {items : List SelectItem} (hne : items ≠ [])
    (h : ∀ i ∈ items, i.Of Readable) (rest : List Token) :
    quantifier? (front (s.items [] items rest)) = none := by
  cases items with
  | nil => exact absurd rfl hne
  | cons i items =>
    rw [Spelling.items, List.nil_append]
    exact quantifier?_front_item (h i List.mem_cons_self) _

theorem startsJoin_eq_false (h : (front ts).Later 2) : Statement.startsJoin (front ts) = false := by
  obtain ⟨l, hl, hlt⟩ := h
  unfold clause? at hl
  split at hl <;> first | (rename_i heq; rw [heq]; rfl) | cases hl
  all_goals omega

/-- A source begins with its word, or nothing is written. -/
theorem later_source : ∀ (src : Source) {rest : List Token}, (front rest).Later 0 →
    (front (s.source src rest)).Later 0
  | .nothing, _, h => by rw [source]; exact h
  | .factor f, _, _ => by rw [source]; exact ⟨0, rfl, Nat.le_refl 0⟩
  | .leftJoin left right on, _, _ => by
    rw [source]
    exact later_source left ⟨1, rfl, Nat.zero_le 1⟩

/-- Without a source nothing is written, and no word that begins one follows. -/
theorem gives_readSource {src : Source} (hrest : (front rest).Later 2)
    (hjoins : src ≠ .nothing → ∀ b rest', (Statement.readJoins src rest).Gives b rest' →
      (Statement.readSource (s.source src rest)).Gives b rest') :
    (Statement.readSource (s.source src rest)).Gives src rest := by
  by_cases hne : src = .nothing
  · subst hne
    have hfrom : front rest ≠ keyword .«from» := (hrest.mono (Nat.le_succ 1)).ne rfl
    rw [source, Statement.readSource, acceptToken?_of_ne hfrom]
    exact gives_done _
  · refine hjoins hne _ _ ?_
    rw [Statement.readJoins, startsJoin_eq_false hrest, if_neg Bool.false_ne_true]
    exact gives_done _

mutual

/-- A query is read back from its tokens, whatever may follow it. -/
theorem gives_read : ∀ (q : Statement), q.Of Readable → ∀ rest, (front rest).Later 7 →
    (Statement.read (s.statement q rest)).Gives q rest
  | .select src c, h, rest, hrest => by
    rw [Statement.Of] at h
    obtain ⟨hsource, hclauses⟩ := h
    have hlater := later_clauses (s := s) hclauses hrest
    have hsrc := gives_readSource (s := s) hlater fun hne b rest' =>
      gives_readJoins src hsource hne (s.clauses c rest) b rest' (hlater.mono (Nat.le_succ 1))
    have hitems := later_source (s := s) src (hlater.mono (Nat.zero_le 2))
    rw [statement, Statement.read]
    exact (gives_expect _ _).andThen fun _ =>
      (gives_readQuantifier c.quantifier
        (quantifier?_front_items hclauses.nonempty hclauses.items _)).andThen fun _ =>
      (gives_readSelectItems hclauses.nonempty hclauses.items hitems.ends hitems.ne_comma).andThen fun _ =>
      hsrc.andThen fun _ => (gives_readClauses hclauses hrest).map _

/-- The joins of a source group to the left: the readers go on with those behind it. -/
theorem gives_readJoins : ∀ (src : Source), src.Of Readable → src ≠ .nothing →
    ∀ rest b rest', (front rest).Later 1 → (Statement.readJoins src rest).Gives b rest' →
      (Statement.readSource (s.source src rest)).Gives b rest'
  | .nothing, _, hne, _, _, _, _, _ => absurd rfl hne
  | .factor f, h, _, rest, b, rest', hrest, hnext => by
    rw [Source.Of] at h
    rw [source, Statement.readSource, acceptToken?_self]
    exact ((gives_readFactor f h rest hrest.ends).andThen fun _ => hnext).next
  | .leftJoin left right on, h, _, rest, b, rest', hrest, hnext => by
    rw [Source.Of] at h
    obtain ⟨hne, hleft, hright, hon⟩ := h
    rw [source]
    refine gives_readJoins left hleft hne _ b rest' ⟨1, rfl, Nat.le_refl 1⟩ ?_
    have hwords : (Statement.readJoinWords (keyword .left :: keyword .join ::
        s.factor right (keyword .on :: s.expr on rest))).Gives ()
        (s.factor right (keyword .on :: s.expr on rest)) := by
      rw [Statement.readJoinWords, acceptToken?_self]
      exact (gives_expect _ _).next
    have hends : (front (keyword .on :: s.expr on rest)).Ends :=
      ⟨rfl, show keyword .on ≠ _ by decide, show keyword .on ≠ _ by decide, rfl⟩
    have hjoin : Statement.startsJoin (front (keyword .left :: keyword .join ::
        s.factor right (keyword .on :: s.expr on rest))) = true := rfl
    rw [Statement.readJoins, if_pos hjoin]
    exact (hwords.andThen fun _ => (gives_readFactor right hright _ hends).andThen fun _ =>
      (gives_expect _ _).andThen fun _ =>
      ((reads hon).whole hrest.ends.continues?_eq).andThen fun _ => hnext).weaken

/-- A table or a query between parentheses is read back. -/
theorem gives_readFactor : ∀ (f : Factor), f.Of Readable → ∀ rest, (front rest).Ends →
    (Statement.readFactor (s.factor f rest)).Gives f rest
  | .table name renamed, _, rest, hrest => by
    have hparen : ∀ ts, front (s.name name :: ts) ≠ .sign .leftParen := by
      intro ts h
      have hname := s.name?_name name
      rw [show s.name name = .sign .leftParen from h] at hname
      cases hname
    rw [Statement.readFactor]
    cases renamed with
    | none =>
      rw [factor, acceptToken?_of_ne (hparen _)]
      exact (gives_expectName (s.name?_name name)).andThen fun _ =>
        (gives_readAlias_none hrest).map _
    | some renamed =>
      rw [factor, acceptToken?_of_ne (hparen _)]
      exact (gives_expectName (s.name?_name name)).andThen fun _ =>
        (gives_readAlias_some renamed rest).map _
  | .derived query name, h, rest, _ => by
    rw [Factor.Of] at h
    have hquery := gives_read query h (.sign .rightParen :: keyword .as :: s.name name :: rest)
      ⟨7, rfl, Nat.le_refl 7⟩
    rw [factor, Statement.readFactor, acceptToken?_self]
    exact (hquery.andThen fun _ => (gives_expect _ _).andThen fun _ =>
      (gives_readAlias_some name rest).andThen fun _ => gives_done _).next

end

end Spelling

namespace Statement

/-- Parsing is complete: a query that is written with parentheses where they are needed and nowhere
else is read as the same query, but for the parentheses. -/
theorem ofTokens_grouped (spelling : Spelling) (q : Statement) (h : q.Supported) (tail : List Token)
    (htail : tail = [.eof] ∨ tail = [.sign .semicolon, .eof]) :
    ∃ q', ofTokens (spelling.statement q.grouped tail) = .ok q' ∧ q'.bare = q.bare := by
  have hlater : (Token.front tail).Later 7 := by
    obtain rfl | rfl := htail <;> exact ⟨7, rfl, Nat.le_refl 7⟩
  obtain ⟨suffix, taken, hread⟩ :=
    Spelling.gives_read (s := spelling) q.grouped (of_grouped q h) tail hlater
  refine ⟨q.grouped, ?_, q.bare_grouped⟩
  rw [ofTokens, hread]
  obtain rfl | rfl := htail <;> rfl

/-- A sum over a window on the rows of a query between parentheses, to which a table is joined. -/
def windowedSum : Statement :=
  let sum : Expr := .binary .add (.field "a") (.field "b")
  let inner : Statement :=
    .select (.factor (.table "t" none)) ⟨none, [.wildcard], none, [], none, [], none⟩
  let window : Expr := .window (.call "sum" none [.binary .mul sum (.field "c")]) [.unary .minus sum]
    [.mk (.qualified "d" "a") .descending] .whole
  .select
    (.leftJoin (.factor (.derived inner "d")) (.table "u" none)
      (.unary .not (.binary .eq (.field "a") (.literal (.boolean true)))))
    ⟨some .distinct, [.expr (.aliased window "w"), .tableWildcard "d"], none, [], none, [],
      some ⟨0, some 2⟩⟩

theorem ofTokens_grouped_windowedSum :
    windowedSum.Supported ∧
      ∃ q', ofTokens (Spelling.plain.statement windowedSum.grouped [.sign .semicolon, .eof]) =
        .ok q' ∧ q'.bare = windowedSum.bare := by
  have hnone : ∀ {α : Type} {P : α → Prop}, ∀ a ∈ (none : Option α), P a := fun a h => by cases h
  have hleaf : ∀ e : Expr, e.isSupported = true → e.slots = [] → e.Supported :=
    fun e node hslots => .intro node (by rw [hslots]; exact List.forall_mem_nil _)
  have hunary : ∀ op e, e.Supported → (Expr.unary op e).Supported := fun op e he =>
    .intro rfl (by simpa only [Expr.slots, List.forall_mem_singleton] using he)
  have hbinary : ∀ op l r, l.Supported → r.Supported → (Expr.binary op l r).Supported :=
    fun op l r hl hr => .intro rfl (by
      simpa only [Expr.slots, List.forall_mem_cons, List.forall_mem_singleton] using
        ⟨hl, hr, List.forall_mem_nil _⟩)
  have hsum := hbinary .add (.field "a") (.field "b") (hleaf _ rfl rfl) (hleaf _ rfl rfl)
  have hcall : (Expr.call "sum" none [.binary .mul (.binary .add (.field "a") (.field "b"))
      (.field "c")]).Supported :=
    .intro rfl (by
      simpa only [Expr.slots, List.map_cons, List.map_nil, List.forall_mem_singleton] using
        hbinary .mul _ _ hsum (hleaf (.field "c") rfl rfl))
  have hitems : ∀ i ∈ [OrderItem.mk (.qualified "d" "a") .descending],
      i.expr.Windowed Expr.Supported := by
    rw [List.forall_mem_singleton]
    exact .plain (hleaf _ rfl rfl)
  have hwindow : (Expr.window (.call "sum" none _) _ _ .whole).Windowed Expr.Supported :=
    .window rfl hcall (List.cons_ne_nil _ [])
      (List.forall_mem_singleton.mpr (hunary .minus _ hsum)) hitems trivial trivial
  have hinner : Clauses.Of Expr.Supported ⟨none, [.wildcard], none, [], none, [], none⟩ :=
    ⟨List.cons_ne_nil _ _, List.forall_mem_singleton.mpr .wildcard, hnone, List.forall_mem_nil _, hnone,
      List.forall_mem_nil _, hnone⟩
  have hclauses : windowedSum.clauses.Of Expr.Supported := by
    refine ⟨List.cons_ne_nil _ _, ?_, hnone, List.forall_mem_nil _, hnone, List.forall_mem_nil _, ?_⟩
    · exact List.forall_mem_cons.mpr ⟨.aliased "w" hwindow,
        List.forall_mem_singleton.mpr (.tableWildcard "d")⟩
    · rintro l ⟨⟩
      exact ⟨show 0 < UInt64.size by decide, 2, rfl, show 2 < UInt64.size by decide⟩
  have hon := hunary .not _ (hbinary .eq (.field "a") (.literal (.boolean true))
    (hleaf _ rfl rfl) (hleaf _ rfl rfl))
  have hsource : windowedSum.source.Of Expr.Supported := by
    show Source.Of Expr.Supported (.leftJoin _ _ _)
    simp only [Source.Of, Factor.Of, Of, true_and]
    exact ⟨Source.noConfusion, hinner, hon⟩
  have hsupported : windowedSum.Supported := ⟨hsource, hclauses⟩
  exact ⟨hsupported, ofTokens_grouped .plain windowedSum hsupported _ (.inr rfl)⟩

-- only the sums stand between parentheses of their own
example : Spelling.plain.statement windowedSum.grouped [.eof] =
    [.keyword .select, .keyword .distinct,
      .identifier "sum", .sign .leftParen, .sign .leftParen, .quoted "a", .sign .plus, .quoted "b",
      .sign .rightParen, .sign .star, .quoted "c", .sign .rightParen,
      .identifier "over", .sign .leftParen, .identifier "partition", .keyword .«by»,
      .sign .minus, .sign .leftParen, .quoted "a", .sign .plus, .quoted "b", .sign .rightParen,
      .keyword .order, .keyword .«by», .quoted "d", .sign .dot, .quoted "a", .keyword .desc,
      .identifier "rows", .identifier "between", .identifier "unbounded", .identifier "preceding",
      .keyword .and, .identifier "unbounded", .identifier "following", .sign .rightParen,
      .keyword .as, .quoted "w", .sign .comma, .quoted "d", .sign .dot, .sign .star,
      .keyword .«from», .sign .leftParen, .keyword .select, .sign .star, .keyword .«from»,
      .quoted "t", .sign .rightParen, .keyword .as, .quoted "d",
      .keyword .left, .keyword .join, .quoted "u", .keyword .on,
      .keyword .not, .quoted "a", .sign .equal, .keyword .«true»,
      .keyword .limit, .number "0", .sign .comma, .number "2", .eof] := by
  rfl

end Statement

end TableQuery
