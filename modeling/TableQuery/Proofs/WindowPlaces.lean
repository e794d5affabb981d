/-
Where windows stand in queries.

The parser puts windows in two places, the list of what is selected and lists to sort by, where each
is an item by itself or has an alias. Everything else is free of windows: conditions, keys, and all
that windows are made of but what they are sorted by.

* `Parse.Yields` — what holds of everything that a reader gives;
* `Expr.yields_read`, `Expr.yields_readWindowed` — expressions;
* `Statement.of_parse` — the query that a text is.
-/
import TableQuery.Proofs.Parentheses
import TableQuery.Proofs.Recomputed
import TableQuery.Statement.Parser

namespace TableQuery

namespace Parse

variable {α β : Type} {k m n : Nat} {rest ts : List Token} {P : α → Prop} {Q : β → Prop}

/-- Whatever is read is of a kind. -/
def Yields (P : α → Prop) (p : Parse α n ts) : Prop := ∀ r, p = .ok r → P r.value

namespace Yields

theorem error (e : ParseError) : Yields P (.error e : Parse α n ts) := fun _ h => by cases h

theorem ok {r : Parsed α n ts} (h : P r.value) : Yields P (.ok r : Parse α n ts) := by
  rintro _ ⟨⟩
  exact h

theorem done {a : α} (h : P a) : Yields P (Parse.done a : Parse α 0 ts) := ok h

theorem anything (p : Parse α n ts) : Yields (fun _ => True) p := fun _ _ => trivial

theorem mono {P' : α → Prop} {p : Parse α n ts} (h : Yields P p) (hP : ∀ a, P a → P' a) :
    Yields P' p := fun r hr => hP _ (h r hr)

theorem behind [AtMostOne k] {suffix : rest <:+ ts} {taken : rest.length + 1 ≤ ts.length}
    {p : Parse α n rest} (h : Yields P p) : Yields P (.behind suffix taken p : Parse α k ts) := by
  intro r hr
  cases p with
  | error e => cases hr
  | ok a =>
    cases hr
    exact h a rfl

theorem andThen {p : Parse α m ts}
    {f : (a : α) → (rest : List Token) → rest.length + m ≤ ts.length → Parse β n rest}
    (h : Yields P p) (hf : ∀ a rest taken, P a → Yields Q (f a rest taken)) :
    Yields Q (p.andThen f) := by
  intro r hr
  cases p with
  | error e => cases hr
  | ok a =>
    obtain ⟨a, rest, suffix, taken⟩ := a
    have hnext := hf a rest taken (h _ rfl)
    rw [Parse.andThen] at hr
    cases hb : f a rest taken with
    | error e =>
      simp only [hb] at hr
      cases hr
    | ok b =>
      simp only [hb] at hr
      cases hr
      exact hnext b hb

theorem before {p : Parse α m ts}
    {f : (a : α) → (rest : List Token) → rest.length + m ≤ ts.length → Parse β n rest}
    (h : Yields P p) (hf : ∀ a rest taken, P a → Yields Q (f a rest taken)) :
    Yields Q (p.before f) := by
  intro r hr
  cases p with
  | error e => cases hr
  | ok a =>
    obtain ⟨a, rest, suffix, taken⟩ := a
    have hnext := hf a rest taken (h _ rfl)
    rw [Parse.before] at hr
    cases hb : f a rest taken with
    | error e =>
      simp only [hb] at hr
      cases hr
    | ok b =>
      simp only [hb] at hr
      cases hr
      exact hnext b hb

theorem weaken {p : Parse α m ts} (h : Yields P p) : Yields P p.weaken := by
  intro r hr
  cases p with
  | error e => cases hr
  | ok a =>
    cases hr
    exact h a rfl

theorem map {p : Parse α m ts} {f : α → β} (h : Yields P p) (hf : ∀ a, P a → Q (f a)) :
    Yields Q (p.map f) := by
  intro r hr
  cases p with
  | error e => cases hr
  | ok a =>
    cases hr
    exact hf _ (h a rfl)

end Yields

end Parse

open Parse

/-! ### Counts -/

theorem Token.countFrom_lt {n m : Nat} {digits : List Char} (hn : n < UInt64.size)
    (h : countFrom n digits = .ok m) : m < UInt64.size := by
  induction digits generalizing n with
  | nil =>
    cases h
    exact hn
  | cons c digits ih =>
    rw [countFrom] at h
    split at h
    · cases h
    · dsimp only at h
      split at h
      · cases h
      · exact ih (by omega) h

theorem Token.yields_expectCount (ts : List Token) : Yields Countable (expectCount ts) := by
  rw [expectCount]
  refine (Yields.anything _).andThen fun digits rest _ _ => ?_
  cases hcount : countFrom 0 digits.toList with
  | error e => exact .error _
  | ok n => exact .done (countFrom_lt (by decide) hcount)

/-! ### Expressions -/

namespace Expr

theorem yields_readField (name : String) (ts : List Token) :
    Yields WindowFree (readField name ts) := by
  rw [readField]
  split
  · exact .behind ((Yields.anything _).map fun _ _ => .qualified ..)
  · exact .done (.field name)

end Expr

/-- No window stands in branches. -/
def Branches.WindowFree (branches : Branches) : Prop := ∀ e ∈ branches.operands, e.WindowFree

namespace Expr

mutual

/-- No window stands in an expression of a level. -/
theorem yields_read (level : Level) (ts : List Token) : Yields WindowFree (read level ts) := by
  cases level with
  | disjunction =>
    rw [read]
    exact (yields_read .conjunction ts).andThen fun _ rest _ h => yields_readChain _ _ rest h
  | conjunction =>
    rw [read]
    exact (yields_read .negation ts).andThen fun _ rest _ h => yields_readChain _ _ rest h
  | negation =>
    rw [read]
    split
    · rename_i rest _ _ _
      exact .behind ((yields_read .negation rest).map fun e h =>
        .intro nofun (by simpa [operands] using h))
    · exact yields_read .comparison ts
  | comparison =>
    rw [read]
    exact (yields_read .addition ts).andThen fun _ rest _ h => yields_readComparison rest h
  | addition =>
    rw [read]
    exact (yields_read .multiplication ts).andThen fun _ rest _ h => yields_readChain _ _ rest h
  | multiplication =>
    rw [read]
    exact (yields_read .sign ts).andThen fun _ rest _ h => yields_readChain _ _ rest h
  | sign =>
    rw [read]
    split
    · rename_i rest _ _ _
      exact .behind ((yields_read .sign rest).map fun e h =>
        .intro nofun (by simpa [operands] using h))
    · exact yields_read .indexing ts
  | indexing =>
    rw [read]
    exact (yields_read .primary ts).andThen fun _ rest _ h => yields_readIndexes rest h
  | primary =>
    rw [read]
    exact yields_readPrimary ts
termination_by 16 * ts.length + (level.rank + 1)
decreasing_by all_goals ((try simp only [Level.rank]); omega)

theorem yields_readChain (level operand : Level) {left : Expr} (ts : List Token)
    (hleft : left.WindowFree) : Yields WindowFree (readChain level operand left ts) := by
  rw [readChain]
  split
  · rename_i op rest _ _ _
    refine .behind ((yields_read operand rest).andThen fun right rest _ hright => ?_)
    exact yields_readChain level operand rest
      (.intro nofun (by simpa [operands] using ⟨hleft, hright⟩))
  · exact .done hleft
termination_by 16 * ts.length
decreasing_by all_goals (have h := operand.rank_le; omega)

theorem yields_readComparison {left : Expr} (ts : List Token) (hleft : left.WindowFree) :
    Yields WindowFree (readComparison left ts) := by
  have hisNull : ∀ negated, WindowFree (isNull left negated) := fun negated =>
    .intro nofun (by simpa [operands] using hleft)
  rw [readComparison]
  split
  · refine .behind ?_
    split
    · exact .behind ((Yields.anything _).map fun _ _ => hisNull true)
    · exact (Yields.anything _).map fun _ _ => hisNull false
  · split
    · rename_i negated rest _ _ _
      refine .behind ((Yields.anything _).andThen fun _ rest _ _ => ?_)
      refine (yields_readItems rest).map fun items hitems => .intro nofun ?_
      simpa [operands] using ⟨hleft, hitems⟩
    · rename_i kind negated rest _ _ _
      refine .behind ((yields_read .addition rest).map fun p hp => .intro nofun ?_)
      simpa [operands] using ⟨hleft, hp⟩
    · split
      · rename_i op rest _ _ _
        refine .behind ((yields_read .addition rest).map fun right hright => .intro nofun ?_)
        simpa [operands] using ⟨hleft, hright⟩
      · exact .done hleft
termination_by 16 * ts.length
decreasing_by all_goals ((try simp only [Level.rank]); omega)

theorem yields_readIndexes {base : Expr} (ts : List Token) (hbase : base.WindowFree) :
    Yields WindowFree (readIndexes base ts) := by
  rw [readIndexes]
  split
  · rename_i rest _ _ _
    refine .behind ((yields_read .disjunction rest).andThen fun position rest _ hposition => ?_)
    refine (Yields.anything _).andThen fun _ rest _ _ => ?_
    exact yields_readIndexes rest (.intro nofun (by simpa [operands] using ⟨hbase, hposition⟩))
  · exact .done hbase
termination_by 16 * ts.length
decreasing_by all_goals ((try simp only [Level.rank]); omega)

theorem yields_readPrimary (ts : List Token) : Yields WindowFree (readPrimary ts) := by
  rw [readPrimary]
  split
  · exact .error _
  · rename_i t rest _ _ _
    split
    · exact .behind (.done (.literal _))
    · exact .behind (.done (.literal _))
    · exact .behind (.done (.literal _))
    · exact .behind (.done (.literal _))
    · exact .behind (.done (.literal _))
    · split
      · exact .error _
      · refine .behind ((yields_read .disjunction rest).andThen fun e rest _ h => ?_)
        exact (Yields.anything _).map fun _ _ => .intro nofun (by simpa [operands] using h)
    · split
      · exact .behind ((yields_readBranches true rest).map fun branches h => .intro nofun h)
      · refine .behind ((yields_read .disjunction rest).andThen fun base rest _ hbase => ?_)
        refine (yields_readBranches true rest).map fun branches h => .intro nofun ?_
        exact List.forall_mem_cons.mpr ⟨hbase, h⟩
    · refine .behind ((Yields.anything _).andThen fun _ rest _ _ => ?_)
      refine (yields_read .disjunction rest).andThen fun e rest _ h => ?_
      refine (Yields.anything _).andThen fun _ rest _ _ => ?_
      refine (Yields.anything _).andThen fun target rest _ _ => ?_
      exact (Yields.anything _).map fun _ _ => .intro nofun (by simpa [operands] using h)
    · split
      · rename_i rest' _ _ _
        exact .behind (.behind (yields_readArguments _ rest'))
      · exact .behind (yields_readField _ rest)
    · exact .behind (yields_readField _ rest)
    · exact .error _
termination_by 16 * ts.length
decreasing_by all_goals ((try simp only [Level.rank]); omega)

theorem yields_readArguments (name : String) (ts : List Token) :
    Yields WindowFree (readArguments name ts) := by
  rw [readArguments]
  split
  · exact .behind ((Yields.anything _).map fun _ _ => .intro nofun nofun)
  · refine (Yields.anything _).before fun q rest _ _ => ?_
    exact (yields_readItems rest).map fun items h => .intro nofun h
termination_by 16 * ts.length + 12
decreasing_by all_goals omega

theorem yields_readItems (ts : List Token) :
    Yields (fun es => ∀ e ∈ es, WindowFree e) (readItems ts) := by
  rw [readItems]
  split
  · exact .ok nofun
  · refine (yields_readList ts).andThen fun items rest _ h => ?_
    exact (Yields.anything _).map fun _ _ => h.2
termination_by 16 * ts.length + 11
decreasing_by all_goals omega

theorem yields_readList (ts : List Token) :
    Yields (fun es => es ≠ [] ∧ ∀ e ∈ es, WindowFree e) (readList ts) := by
  rw [readList]
  refine (yields_read .disjunction ts).andThen fun e rest _ he => ?_
  split
  · rename_i rest _ _ _
    refine .behind ((yields_readList rest).map fun es h => ⟨List.cons_ne_nil _ _, ?_⟩)
    exact List.forall_mem_cons.mpr ⟨he, h.2⟩
  · exact .done ⟨List.cons_ne_nil _ _, List.forall_mem_singleton.mpr he⟩
termination_by 16 * ts.length + 10
decreasing_by all_goals ((try simp only [Level.rank]); omega)

theorem yields_readBranches (first : Bool) (ts : List Token) :
    Yields Branches.WindowFree (readBranches first ts) := by
  rw [readBranches]
  split
  · rename_i rest _ _ _
    refine .behind ((yields_read .disjunction rest).andThen fun condition rest _ hcondition => ?_)
    refine (Yields.anything _).andThen fun _ rest _ _ => ?_
    refine (yields_read .disjunction rest).andThen fun result rest _ hresult => ?_
    refine (yields_readBranches false rest).map fun branches h => ?_
    exact List.forall_mem_cons.mpr ⟨hcondition, List.forall_mem_cons.mpr ⟨hresult, h⟩⟩
  · split
    · exact .error _
    · split
      · rename_i rest _ _ _
        refine .behind ((yields_read .disjunction rest).andThen fun e rest _ h => ?_)
        exact (Yields.anything _).map fun _ _ => List.forall_mem_singleton.mpr h
      · exact (Yields.anything _).map fun _ _ => nofun
termination_by 16 * ts.length
decreasing_by all_goals ((try simp only [Level.rank]); omega)

end

/-! ### Windows -/

theorem yields_readBound (ts : List Token) : Yields Bound.Supported (readBound ts) := by
  rw [readBound]
  split
  · refine .behind ?_
    split
    · exact .ok trivial
    · exact (Yields.anything _).map fun _ _ => trivial
  · split
    · exact .behind ((Yields.anything _).map fun _ _ => trivial)
    · refine (Token.yields_expectCount ts).andThen fun n rest _ hn => ?_
      split
      · exact .ok hn
      · exact (Yields.anything _).map fun _ _ => hn

theorem yields_readExtent (ts : List Token) :
    Yields (fun x : Extent => x.first.Supported ∧ x.last.Supported) (readExtent ts) := by
  rw [readExtent]
  split
  · refine .behind ((Yields.anything _).andThen fun _ rest _ _ => ?_)
    refine (yields_readBound rest).andThen fun first rest _ hfirst => ?_
    refine (Yields.anything _).andThen fun _ rest _ _ => ?_
    exact (yields_readBound rest).map fun last hlast => ⟨hfirst, hlast⟩
  · exact .done ⟨trivial, trivial⟩

theorem yields_readPartition (ts : List Token) :
    Yields (fun es => es ≠ [] ∧ ∀ e ∈ es, WindowFree e) (readPartition ts) := by
  rw [readPartition]
  split
  · exact .behind ((Yields.anything _).andThen fun _ rest _ _ => yields_readList rest)
  · exact .done ⟨List.cons_ne_nil _ _, List.forall_mem_singleton.mpr (.literal _)⟩

mutual

/-- A window is read only behind a call. -/
theorem yields_readWindowed (ts : List Token) : Yields (Windowed WindowFree) (readWindowed ts) := by
  rw [readWindowed]
  refine (yields_read .disjunction ts).andThen fun e rest _ he => ?_
  split
  · rename_i p rest' _ _ hcall _
    exact .behind (yields_readWindow rest' (by rw [hcall]; rfl) he)
  · exact .done (.plain he)
termination_by 4 * ts.length
decreasing_by all_goals omega

theorem yields_readWindow {function : Expr} (ts : List Token)
    (hcall : function.call?.isSome = true) (hfunction : function.WindowFree) :
    Yields (Windowed WindowFree) (readWindow function ts) := by
  rw [readWindow]
  refine (Yields.anything _).andThen fun _ rest _ _ => ?_
  refine (yields_readPartition rest).andThen fun partition rest _ hpartition => ?_
  refine (yields_readOrder rest).andThen fun order rest _ horder => ?_
  refine (yields_readExtent rest).andThen fun extent rest _ hextent => ?_
  refine (Yields.anything _).map fun _ _ => ?_
  exact .window hcall hfunction hpartition.1 hpartition.2 horder hextent.1 hextent.2
termination_by 4 * ts.length
decreasing_by all_goals omega

theorem yields_readOrder (ts : List Token) :
    Yields (fun items => ∀ i ∈ items, i.expr.Windowed WindowFree) (readOrder ts) := by
  rw [readOrder]
  split
  · exact .done nofun
  · exact .error _
  · rename_i rest _ _ _
    exact .behind (yields_readOrderItems rest)
termination_by 4 * ts.length + 2
decreasing_by all_goals omega

theorem yields_readOrderItems (ts : List Token) :
    Yields (fun items => ∀ i ∈ items, i.expr.Windowed WindowFree) (readOrderItems ts) := by
  rw [readOrderItems]
  refine (yields_readWindowed ts).andThen fun e rest _ he => ?_
  refine (Yields.anything _).andThen fun d rest _ _ => ?_
  split
  · rename_i rest _ _ _
    refine .behind ((yields_readOrderItems rest).map fun items h => ?_)
    exact List.forall_mem_cons.mpr ⟨he, h⟩
  · exact .done (List.forall_mem_singleton.mpr he)
termination_by 4 * ts.length + 1
decreasing_by all_goals omega

end

end Expr

/-! ### Queries -/

namespace Statement

open TableQuery.Expr

theorem yields_readItem (ts : List Token) : Yields (SelectItem.Of WindowFree) (readItem ts) := by
  rw [readItem]
  split
  · exact .behind (.done .wildcard)
  · split
    · refine (Yields.anything _).andThen fun table rest _ _ => ?_
      refine (Yields.anything _).andThen fun _ rest _ _ => ?_
      exact (Yields.anything _).map fun _ _ => .tableWildcard table
    · refine (yields_readWindowed ts).andThen fun e rest _ he => ?_
      refine (Yields.anything _).map fun name _ => ?_
      cases name with
      | none => exact .expr he
      | some name => exact .aliased name he

theorem yields_readItems (ts : List Token) :
    Yields (fun items => items ≠ [] ∧ ∀ i ∈ items, i.Of WindowFree) (readItems ts) := by
  rw [readItems]
  refine (yields_readItem ts).andThen fun item rest _ hitem => ?_
  split
  · rename_i rest _ _ _
    refine .behind ((yields_readItems rest).map fun items h => ⟨List.cons_ne_nil _ _, ?_⟩)
    exact List.forall_mem_cons.mpr ⟨hitem, h.2⟩
  · exact .done ⟨List.cons_ne_nil _ _, List.forall_mem_singleton.mpr hitem⟩
termination_by ts.length
decreasing_by omega

theorem yields_readLimit (ts : List Token) : Yields Limit.Supported (readLimit ts) := by
  rw [readLimit]
  refine (Token.yields_expectCount ts).andThen fun n rest _ hn => ?_
  split
  · exact .behind ((Token.yields_expectCount _).map fun count hcount => ⟨hn, count, rfl, hcount⟩)
  · split
    · exact .behind ((Token.yields_expectCount _).map fun offset hoffset => ⟨hoffset, n, rfl, hn⟩)
    · exact .done ⟨show 0 < UInt64.size by decide, n, rfl, hn⟩

theorem yields_readGroupBy (ts : List Token) :
    Yields (fun es => ∀ e ∈ es, WindowFree e) (readGroupBy ts) := by
  rw [readGroupBy]
  split
  · exact .done (List.forall_mem_nil _)
  · exact .error _
  · exact .behind ((yields_readList _).mono fun _ h => h.2)

theorem yields_optional {α : Type} {n : Nat} {P : α → Prop} {k : Keyword}
    {read : (ts : List Token) → Parse α n ts} (h : ∀ ts, Yields P (read ts)) (ts : List Token) :
    Yields (fun o : Option α => ∀ a ∈ o, P a) (Token.optional k read ts) := by
  rw [Token.optional]
  split
  · refine .behind ((h _).map fun a ha => ?_)
    rintro _ ⟨⟩
    exact ha
  · exact .done fun a ha => by cases ha

theorem yields_readClauses (quantifier : Option Quantifier) {items : List SelectItem}
    (ts : List Token) (hnonempty : items ≠ []) (hitems : ∀ i ∈ items, i.Of WindowFree) :
    Yields (Clauses.Of WindowFree) (readClauses quantifier items ts) := by
  rw [readClauses]
  refine (yields_optional (yields_read _) ts).andThen fun condition rest _ hcondition => ?_
  refine (yields_readGroupBy rest).andThen fun groupBy rest _ hgroupBy => ?_
  refine (yields_optional (yields_read _) rest).andThen fun having rest _ hhaving => ?_
  refine (yields_readOrder rest).andThen fun orderBy rest _ horderBy => ?_
  refine (yields_optional yields_readLimit rest).map fun limit hlimit => ?_
  exact ⟨hnonempty, hitems, hcondition, hgroupBy, hhaving, horderBy, hlimit⟩

mutual

theorem yields_read (ts : List Token) : Yields (Statement.Of WindowFree) (read ts) := by
  rw [read]
  refine (Yields.anything _).andThen fun _ rest _ _ => ?_
  refine (Yields.anything _).andThen fun quantifier rest _ _ => ?_
  refine (yields_readItems rest).andThen fun items rest _ hitems => ?_
  refine (yields_readSource rest).andThen fun source rest _ hsource => ?_
  refine (yields_readClauses quantifier rest hitems.1 hitems.2).map fun clauses hclauses => ?_
  exact ⟨hsource, hclauses⟩
termination_by 4 * ts.length
decreasing_by all_goals omega

theorem yields_readSource (ts : List Token) : Yields (Source.Of WindowFree) (readSource ts) := by
  rw [readSource]
  split
  · exact .done trivial
  · rename_i rest _ _ _
    refine .behind ((yields_readFactor rest).andThen fun f rest _ hf => ?_)
    exact yields_readJoins rest nofun hf
termination_by 4 * ts.length + 2
decreasing_by all_goals omega

theorem yields_readJoins {left : Source} (ts : List Token) (hleft : left ≠ .nothing)
    (h : left.Of WindowFree) : Yields (Source.Of WindowFree) (readJoins left ts) := by
  rw [readJoins]
  split
  · refine Yields.weaken ((Yields.anything _).andThen fun _ rest _ _ => ?_)
    refine (yields_readFactor rest).andThen fun right rest _ hright => ?_
    refine (Yields.anything _).andThen fun _ rest _ _ => ?_
    refine (Expr.yields_read .disjunction rest).andThen fun on rest _ hon => ?_
    exact yields_readJoins rest nofun ⟨hleft, h, hright, hon⟩
  · exact .done h
termination_by 4 * ts.length + 1
decreasing_by all_goals omega

theorem yields_readFactor (ts : List Token) : Yields (Factor.Of WindowFree) (readFactor ts) := by
  rw [readFactor]
  split
  · rename_i rest _ _ _
    refine .behind ((yields_read rest).andThen fun query rest _ hquery => ?_)
    refine (Yields.anything _).andThen fun _ rest _ _ => ?_
    refine (Yields.anything _).andThen fun renamed rest _ _ => ?_
    split
    · exact .done hquery
    · exact .error _
  · exact (Yields.anything _).andThen fun name rest _ _ => (Yields.anything _).map fun _ _ => trivial
termination_by 4 * ts.length
decreasing_by all_goals omega

end

/-- In the query that a text is, windows stand only where items are selected or sorted by. -/
theorem of_parse {text : String} {s : Statement} (h : parse text = .ok s) : s.Of WindowFree := by
  rw [parse] at h
  split at h
  · cases h
  · rename_i ts _
    rw [ofTokens] at h
    cases hread : read ts with
    | error e =>
      rw [hread] at h
      cases h
    | ok r =>
      rw [hread] at h
      obtain ⟨-, h⟩ | ⟨-, h⟩ := ite_eq_iff.mp h
      · cases h
        exact yields_read ts _ hread
      · cases h

end Statement

end TableQuery
