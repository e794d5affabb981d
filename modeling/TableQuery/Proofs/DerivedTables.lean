/-
Queries inside the sources of others.

A query is executed on top of those that surround it, and none of them matters to it: on every stack
of contexts it comes to the same, and the stack is afterwards as before. So a query inside a source
stands for its result, and a table that holds the result may take its place.

* `Statement.executeOn_eq` — execution on a stack is execution in a context of its own;
* `Statement.Replaced` — a query with one of its factors replaced, at any depth;
* `Statement.execute_put_of_notMem` — tables that are not named do not matter;
* `Statement.execute_of_derived` — a derived table is a table that holds its result.
-/
import TableQuery.Proofs.Selection
import TableQuery.Statement.Stack

namespace TableQuery

/-! ### Stacks -/

namespace StackStep

variable {α β : Type} {c : Context} {below : List Context}

theorem ofResult_eq_current (r : Except ExecutionError α) :
    ofResult r (c :: below) = current (Step.lift r) (c :: below) := by
  cases r <;> rfl

/-- Steps in the context on top, one after the other, are one step in it. -/
theorem bind_eq_current {s : StackStep α} {t : Step α} {f : α → StackStep β} {g : α → Step β}
    (h : s (c :: below) = current t (c :: below))
    (hf : ∀ a d, f a (d :: below) = current (g a) (d :: below)) :
    (s >>= f) (c :: below) = current (t >>= g) (c :: below) := by
  show EStateM.bind s f (c :: below) = _
  have hbind : (t >>= g) c = EStateM.bind t g c := rfl
  rw [EStateM.bind, h, current, current, hbind, EStateM.bind]
  cases t c with
  | ok a d => exact hf a d
  | error e d => rfl

/-- A step in a context that is taken off again leaves no trace. -/
theorem nested_eq {s : StackStep α} {t : Step α}
    (h : ∀ below, s ({} :: below) = current t ({} :: below)) : nested s = ofResult (t.runIn {}) := by
  funext stack
  rw [nested, h, current, Step.runIn, EStateM.run]
  cases t {} <;> rfl

end StackStep

namespace Statement

open StackStep

variable (engine : Engine) (tables : Tables)

mutual

/-- On every stack a query has the result that it has by itself, and leaves the stack as it was. -/
theorem executeOn_eq : ∀ s : Statement,
    s.executeOn engine tables = ofResult (s.execute engine tables)
  | .select source clauses => by
    rw [executeOn, execute]
    refine nested_eq fun below => bind_eq_current ?_ fun _ _ => rfl
    exact bind_eq_current (loadSourceOn_eq source) fun _ _ => rfl

theorem loadSourceOn_eq {c : Context} {below : List Context} : ∀ source : Source,
    loadSourceOn engine tables source (c :: below) =
      current (loadSource engine tables source) (c :: below)
  | .nothing => by
    rw [loadSourceOn, loadSource]
    exact bind_eq_current rfl fun _ _ => rfl
  | .factor f => by
    rw [loadSourceOn, loadSource, loadFactorOn_eq f]
    refine bind_eq_current (ofResult_eq_current _) fun v d => ?_
    exact bind_eq_current rfl fun _ _ => rfl
  | .leftJoin left right on => by
    rw [loadSourceOn, loadSource, loadFactorOn_eq right]
    refine bind_eq_current (loadSourceOn_eq left) fun aliases d => ?_
    exact bind_eq_current (ofResult_eq_current _) fun v d => rfl

theorem loadFactorOn_eq : ∀ f : Factor,
    loadFactorOn engine tables f = ofResult (loadFactor engine tables f)
  | .table name _ => by
    rw [loadFactorOn, loadFactor]
    cases tables.get? name <;> rfl
  | .derived query _ => by
    rw [loadFactorOn, loadFactor]
    exact executeOn_eq query

end

end Statement

/-! ### Tables by their names -/

mutual

/-- The names of the tables that a query takes rows from, those in its sources included. -/
def Statement.tableNames : Statement → List String
  | .select source _ => source.tableNames

/-- The names of the tables in a source. -/
def Source.tableNames : Source → List String
  | .nothing => []
  | .factor f => f.tableNames
  | .leftJoin left right _ => left.tableNames ++ right.tableNames

/-- The names of the tables in a factor. -/
def Factor.tableNames : Factor → List String
  | .table name _ => [name]
  | .derived query _ => query.tableNames

end

namespace Statement

variable (engine : Engine) (tables : Tables) {t : String} (v : View)

mutual

/-- A table that a query does not name does not matter to it. -/
theorem execute_put_of_notMem : ∀ s : Statement, t ∉ s.tableNames →
    s.execute engine (tables.put t v) = s.execute engine tables
  | .select source clauses, ht => by
    rw [Statement.tableNames] at ht
    rw [execute, execute, loadSource_put_of_notMem source ht]

theorem loadSource_put_of_notMem : ∀ source : Source, t ∉ source.tableNames →
    loadSource engine (tables.put t v) source = loadSource engine tables source
  | .nothing, _ => by
    rw [loadSource, loadSource]
  | .factor f, ht => by
    rw [Source.tableNames] at ht
    rw [loadSource, loadSource, loadFactor_put_of_notMem f ht]
  | .leftJoin left right on, ht => by
    rw [Source.tableNames, List.mem_append, not_or] at ht
    rw [loadSource, loadSource, loadSource_put_of_notMem left ht.1,
      loadFactor_put_of_notMem right ht.2]

theorem loadFactor_put_of_notMem : ∀ f : Factor, t ∉ f.tableNames →
    loadFactor engine (tables.put t v) f = loadFactor engine tables f
  | .table name _, ht => by
    rw [Factor.tableNames, List.mem_singleton] at ht
    rw [loadFactor, loadFactor, Labelled.get?_put_ne tables v fun h => ht h.symm]
  | .derived query _, ht => by
    rw [Factor.tableNames] at ht
    rw [loadFactor, loadFactor, execute_put_of_notMem query ht]

end

end Statement

/-! ### Replacing a factor -/

mutual

/-- The second query is the first with one factor replaced, in its source or in that of a query in
its source. -/
inductive Statement.Replaced (old new : Factor) : Statement → Statement → Prop
  | select {source source' : Source} (clauses : Clauses) : Source.Replaced old new source source' →
      Statement.Replaced old new (.select source clauses) (.select source' clauses)

/-- The second source is the first with one factor replaced. -/
inductive Source.Replaced (old new : Factor) : Source → Source → Prop
  | factor {f f' : Factor} : Factor.Replaced old new f f' →
      Source.Replaced old new (.factor f) (.factor f')
  | left {left left' : Source} (right : Factor) (on : Expr) : Source.Replaced old new left left' →
      Source.Replaced old new (.leftJoin left right on) (.leftJoin left' right on)
  | right (left : Source) {right right' : Factor} (on : Expr) : Factor.Replaced old new right right' →
      Source.Replaced old new (.leftJoin left right on) (.leftJoin left right' on)

/-- The second factor takes the place of the first, or of one inside the first. -/
inductive Factor.Replaced (old new : Factor) : Factor → Factor → Prop
  | here : Factor.Replaced old new old new
  | derived {query query' : Statement} (name : String) : Statement.Replaced old new query query' →
      Factor.Replaced old new (.derived query name) (.derived query' name)

end

/-- A factor that is replaced by one with the same name keeps its name. -/
theorem Factor.Replaced.name {old new f f' : Factor} (h : Factor.Replaced old new f f')
    (hname : new.name = old.name) : f'.name = f.name := by
  cases h with
  | here => exact hname
  | derived name _ => rfl

namespace Statement

variable {engine : Engine} {tables : Tables} {old new : Factor} {t : String} {v : View}

mutual

/-- A factor with the same name and the same rows may take the place of another. -/
theorem execute_of_replaced (hname : new.name = old.name)
    (hrows : loadFactor engine (tables.put t v) new = loadFactor engine tables old) :
    ∀ {s s' : Statement}, Statement.Replaced old new s s' → t ∉ s.tableNames →
      s'.execute engine (tables.put t v) = s.execute engine tables
  | _, _, .select clauses h, ht => by
    rw [Statement.tableNames] at ht
    rw [execute, execute, loadSource_of_replaced hname hrows h ht]

theorem loadSource_of_replaced (hname : new.name = old.name)
    (hrows : loadFactor engine (tables.put t v) new = loadFactor engine tables old) :
    ∀ {source source' : Source}, Source.Replaced old new source source' → t ∉ source.tableNames →
      loadSource engine (tables.put t v) source' = loadSource engine tables source
  | _, _, .factor h, ht => by
    rw [Source.tableNames] at ht
    rw [loadSource, loadSource, loadFactor_of_replaced hname hrows h ht, h.name hname]
  | _, _, .left right on h, ht => by
    rw [Source.tableNames, List.mem_append, not_or] at ht
    rw [loadSource, loadSource, loadSource_of_replaced hname hrows h ht.1,
      loadFactor_put_of_notMem engine tables v right ht.2]
  | _, _, .right left on h, ht => by
    rw [Source.tableNames, List.mem_append, not_or] at ht
    rw [loadSource, loadSource, loadSource_put_of_notMem engine tables v left ht.1,
      loadFactor_of_replaced hname hrows h ht.2, h.name hname]

theorem loadFactor_of_replaced (hname : new.name = old.name)
    (hrows : loadFactor engine (tables.put t v) new = loadFactor engine tables old) :
    ∀ {f f' : Factor}, Factor.Replaced old new f f' → t ∉ f.tableNames →
      loadFactor engine (tables.put t v) f' = loadFactor engine tables f
  | _, _, .here, _ => hrows
  | _, _, .derived name h, ht => by
    rw [Factor.tableNames] at ht
    rw [loadFactor, loadFactor, execute_of_replaced hname hrows h ht]

end

mutual

/-- A query fails if one of its factors does. -/
theorem execute_fails (hold : ∃ e, loadFactor engine tables old = .error e) :
    ∀ {s s' : Statement}, Statement.Replaced old new s s' → ∃ e, s.execute engine tables = .error e
  | _, _, .select clauses h => by
    obtain ⟨e, d, he⟩ := loadSource_fails hold h {}
    refine ⟨e, ?_⟩
    rw [execute_select]
    exact Step.runIn_bind_of_error (Step.bind_of_error he)

theorem loadSource_fails (hold : ∃ e, loadFactor engine tables old = .error e) :
    ∀ {source source' : Source}, Source.Replaced old new source source' → ∀ c : Context,
      ∃ e d, loadSource engine tables source c = .error e d
  | _, _, .factor h, c => by
    obtain ⟨e, he⟩ := loadFactor_fails hold h
    rw [loadSource, he]
    exact ⟨e, c, rfl⟩
  | _, _, .left right on h, c => by
    obtain ⟨e, d, he⟩ := loadSource_fails hold h c
    rw [loadSource]
    exact ⟨e, d, Step.bind_of_error he⟩
  | _, _, .right left on h, c => by
    obtain ⟨e, he⟩ := loadFactor_fails hold h
    rw [loadSource, he]
    cases hleft : loadSource engine tables left c with
    | ok aliases d => exact ⟨e, d, Step.bind_of_ok hleft⟩
    | error e' d => exact ⟨e', d, Step.bind_of_error hleft⟩

theorem loadFactor_fails (hold : ∃ e, loadFactor engine tables old = .error e) :
    ∀ {f f' : Factor}, Factor.Replaced old new f f' → ∃ e, loadFactor engine tables f = .error e
  | _, _, .here => hold
  | _, _, .derived name h => by
    rw [loadFactor]
    exact execute_fails hold h

end

/-- A derived table is a table that holds its result: when a query inside a source is replaced by a
table of its result, under a name that is used nowhere, the whole query comes to the same, by itself
and on every stack of contexts. It fails if the query inside does. -/
theorem execute_of_derived {query s s' : Statement} {a t : String}
    (h : Statement.Replaced (.derived query a) (.table t (some a)) s s') (ht : t ∉ s.tableNames)
    (engine : Engine) (tables : Tables) :
    (∀ v, query.execute engine tables = .ok v →
      s'.execute engine (tables.put t v) = s.execute engine tables ∧
      s'.executeOn engine (tables.put t v) = s.executeOn engine tables) ∧
    (∀ e, query.execute engine tables = .error e → ∃ e', s.execute engine tables = .error e') := by
  refine ⟨fun v hv => ?_, fun e he => execute_fails ⟨e, by rw [loadFactor, he]⟩ h⟩
  have hrows : loadFactor engine (tables.put t v) (.table t (some a)) =
      loadFactor engine tables (.derived query a) := by
    rw [loadFactor, loadFactor, Labelled.get?_put_self, hv]
  have hname : Factor.name (.table t (some a)) = Factor.name (.derived query a) := rfl
  have hsame := execute_of_replaced hname hrows h ht
  exact ⟨hsame, by rw [executeOn_eq, executeOn_eq, hsame]⟩

/-- The numbers in a field of a table or of a query. -/
def numbersOf (f : Factor) : Statement :=
  .select (.factor f) (selecting [.expr (.field "x")])

/-- Three queries inside each other, of which the innermost is replaced by a table of its result or
fails for want of its table. -/
theorem execute_numbersOf :
    (∃ v : View, v.size = 3 ∧ (numbersOf (.table "t" none)).execute .builtin numbers = .ok v ∧
      (numbersOf (.derived (numbersOf (.table "u" (some "a"))) "b")).execute .builtin
          (numbers.put "u" v) =
        (numbersOf (.derived (numbersOf (.derived (numbersOf (.table "t" none)) "a")) "b")).execute
          .builtin numbers) ∧
    ∃ e, (numbersOf (.derived (numbersOf (.derived (numbersOf (.table "s" none)) "a")) "b")).execute
      .builtin numbers = .error e := by
  have hreplaced : ∀ query : Statement, Statement.Replaced (.derived query "a") (.table "u" (some "a"))
      (numbersOf (.derived (numbersOf (.derived query "a")) "b"))
      (numbersOf (.derived (numbersOf (.table "u" (some "a"))) "b")) := fun query =>
    .select _ (.factor (.derived _ (.select _ (.factor .here))))
  constructor
  · have hinner : (((numbersOf (.table "t" none)).execute .builtin numbers).toOption.any
        fun v => v.size == 3) = true := by decide +kernel
    obtain ⟨v, hv, hsize⟩ := (Option.any_eq_true _ _).mp hinner
    have hv := Step.eq_ok_of_toOption hv
    refine ⟨v, eq_of_beq hsize, hv, ?_⟩
    exact ((execute_of_derived (hreplaced _) (by decide) .builtin numbers).1 v hv).1
  · exact (execute_of_derived (hreplaced _) (by decide) .builtin numbers).2 (.unknownTable "s") rfl

end Statement

end TableQuery
