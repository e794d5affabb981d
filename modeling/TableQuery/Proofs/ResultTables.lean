/-
Results are tables.

A query names its columns once, from what it selects, and fails when two of them have one name. Rows are made
under these names on every way to a result: from rows of the source, from the row that stands in for none,
and from the groups of equal rows. So a result may be put among the tables, or stand in the source of another
query, whatever the tables were that it came from.

* `View.Complete.undeclared?_eq_none` — a complete view is valid, with its fields declared or found;
* `Statement.selected` — what a query selects, with all stars written out;
* `Statement.fields_execute` — its columns, in this order;
* `Statement.execute_wellFormed` — results are tables, of which all columns can be selected again.
-/
import TableQuery.Proofs.DistinctRows
import TableQuery.Session

namespace TableQuery

theorem Labelled.has_iff_mem_labels {α : Type} {m : Labelled α} {label : String} :
    m.has label = true ↔ label ∈ m.labels := by
  rw [has, get?, List.lookup_isSome_iff, labels, List.mem_map]
  constructor
  · rintro ⟨e, he, hlabel⟩
    exact ⟨e, he, (eq_of_beq hlabel).symm⟩
  · rintro ⟨e, he, rfl⟩
    exact ⟨e, he, beq_self_eq_true _⟩

namespace View

/-- Rows are valid if every cell is under a field. -/
theorem undeclared?_eq_none {v : View} (h : ∀ row ∈ v.rows, ∀ field ∈ row.labels, field ∈ v.fields) :
    v.undeclared? = none := by
  refine List.findSome?_eq_none_iff.mpr fun ⟨row, i⟩ hrow => ?_
  rw [Option.map_eq_none_iff, List.find?_eq_none]
  intro field hfield
  have hmem : row ∈ v.rows := by
    rw [List.mem_zipIdx_iff_getElem?] at hrow
    exact Array.mem_toList_iff.mp (List.mem_of_getElem? hrow)
  simpa [declares] using h row hmem field hfield

namespace Complete

variable {v : View}

theorem has_iff (h : v.Complete) {row : Row} (hrow : row ∈ v.rows) (field : String) :
    row.has field = true ↔ field ∈ v.fields := by
  rw [Labelled.has_iff_mem_labels, h.labels row hrow]

theorem undeclared?_eq_none (h : v.Complete) : v.undeclared? = none :=
  View.undeclared?_eq_none fun row hrow _ hfield => h.labels row hrow ▸ hfield

/-- The rows are valid under the fields of the first of them, too, for all have the same. -/
theorem undeclared?_ofRows (h : v.Complete) : (ofRows v.rows.toList none).undeclared? = none := by
  refine View.undeclared?_eq_none fun row hrow field hfield => ?_
  have hmem : row ∈ v.rows.toList := List.mem_toArray.mp hrow
  have hfield : field ∈ v.fields := by rwa [← h.labels row (Array.mem_toList_iff.mp hmem)]
  cases hrows : v.rows.toList with
  | nil =>
    rw [hrows] at hmem
    cases hmem
  | cons first rows =>
    have hfirst : first ∈ v.rows.toList := hrows ▸ List.mem_cons_self
    show field ∈ first.labels.mergeSort _
    rwa [List.mem_mergeSort, h.labels first (Array.mem_toList_iff.mp hfirst)]

end Complete

end View

/-- A valid view can be registered. -/
theorem Session.registerTable_eq_ok {v : View} (h : v.undeclared? = none) (s : Session) (name : String) :
    s.registerTable name v = .ok (s.registerView name v) := by
  rw [registerTable, h]

/-! ### Columns -/

theorem columnNames_eq_ok {exprs : List Expr} {names : List String} (h : columnNames exprs = .ok names) :
    names = exprs.map (Expr.columnName exprs) := by
  rw [columnNames] at h
  split at h
  · cases h
  · exact (Except.ok.inj h).symm

namespace Step

variable {engine : Engine} {c d : Context} {v : View}

/-- Whatever is selected has a column for each expression that the items stand for, in their order. -/
theorem fields_selectAll {items : List SelectItem} {order : List OrderItem} {bounds : Option Limit}
    (h : selectAll engine items order bounds c = .ok v d) :
    ∃ exprs, (items.mapM c.itemExprs).map List.flatten = .ok exprs ∧ columnNames exprs = .ok v.fields := by
  rw [selectAll_eq] at h
  obtain ⟨⟨exprs, names⟩, c', hordered, h⟩ := exists_of_bind_eq_ok h
  obtain ⟨⟨l, hl, rfl⟩, hnames, -⟩ := ordered_eq_ok.mp hordered
  obtain ⟨⟨⟩, c'', -, h⟩ := exists_of_bind_eq_ok h
  refine ⟨l.flatten, by rw [hl]; rfl, ?_⟩
  rw [hnames, fields_project l.flatten names trivial h]

/-- Removing duplicates keeps the columns. -/
theorem fields_distinctRows {order : List OrderItem} {bounds : Option Limit} {w : View}
    (hw : w.fields.Nodup) (h : distinctRows engine w order bounds = .ok v) : v.fields = w.fields := by
  obtain ⟨d, h⟩ := runIn_eq_ok.mp h
  obtain ⟨_, _, -, h⟩ := exists_of_bind_eq_ok h
  obtain ⟨_, c, -, h⟩ := exists_of_bind_eq_ok h
  obtain ⟨exprs, hexprs, hnames⟩ := fields_selectAll h
  rw [itemExprs_exprs] at hexprs
  cases hexprs
  rw [columnNames_fields hw] at hnames
  exact (Except.ok.inj hnames).symm

end Step

namespace Statement

open Step

variable {engine : Engine} {tables : Tables} {v : View}

/-- What a query selects: its items, with stars written out as the columns of the rows that are left of its
source. -/
def selected (engine : Engine) (tables : Tables) : Statement → Except ExecutionError (List Expr)
  | .select source clauses => runIn {} do
    discard (loadSource engine tables source)
    prepare engine clauses
    let c ← get
    lift ((clauses.items.mapM c.itemExprs).map List.flatten)

/-- The columns of a result are what the query selects, in this order, under the names that are chosen for
it. -/
theorem fields_execute {q : Statement} (h : q.execute engine tables = .ok v) :
    ∃ exprs, q.selected engine tables = .ok exprs ∧ v.fields = exprs.map (Expr.columnName exprs) := by
  obtain ⟨source, clauses⟩ := q
  obtain ⟨aliases, s, p, d, hload, hprepare, hselect⟩ := exists_of_execute_eq_ok h
  have hselected : ∀ exprs, (clauses.items.mapM p.itemExprs).map List.flatten = .ok exprs →
      selected engine tables (.select source clauses) = .ok exprs := by
    intro exprs hexprs
    have hget : (get : Step Context) p = .ok p p := rfl
    rw [selected, runIn_bind_of_ok (discard_of_ok hload), runIn_bind_of_ok hprepare,
      runIn_bind_of_ok hget, hexprs, runIn_lift]
  rw [Step.select.eq_def] at hselect
  rcases hquantifier : clauses.quantifier with _ | _ | _
  all_goals rw [hquantifier] at hselect
  · obtain ⟨exprs, hexprs, hnames⟩ := fields_selectAll hselect
    exact ⟨exprs, hselected exprs hexprs, columnNames_eq_ok hnames⟩
  · -- the names are chosen for all rows, and the distinct ones keep them
    obtain ⟨w, c, hall, hdistinct⟩ := exists_of_bind_eq_ok hselect
    obtain ⟨exprs, hexprs, hnames⟩ := fields_selectAll hall
    have hfields := fields_distinctRows (of_columnNames hnames).1 (lift_eq_ok hdistinct).1
    exact ⟨exprs, hselected exprs hexprs, hfields.trans (columnNames_eq_ok hnames)⟩
  · cases hselect

/-! ### Results in the place of tables -/

/-- Selects all columns of a factor. -/
def everything (f : Factor) : Statement := .select (.factor f) (selecting [.wildcard])

/-- A complete view is selected from as it is. -/
theorem execute_everything {f : Factor} (hv : v.Complete) (hload : loadFactor engine tables f = .ok v) :
    (everything f).execute engine tables = .ok v := by
  obtain ⟨c, hadd⟩ : ∃ c, addView f.name v {} = .ok ⟨⟩ c := ⟨_, addView_new _ _⟩
  have hsource : loadSource engine tables (.factor f) {} = .ok [f.name] c := by
    rw [loadSource, hload]
    exact bind_of_ok (f := fun _ => pure [f.name]) hadd
  have hprepare : prepare engine (selecting [.wildcard]) c = .ok () c := rfl
  rw [everything, execute_of_prepared hsource hprepare, select.eq_def]
  exact selectAll_wildcard hv hadd

/-- Whatever the tables and functions are, a result has different fields, and its rows have cells for just
these fields. So it can be registered, with its fields or without them, and used as a table or inside the
source of another query. It has one field for each expression that is selected, in their order. -/
theorem execute_wellFormed {q : Statement} (h : q.execute engine tables = .ok v) :
    v.fields.Nodup ∧ (∀ row ∈ v.rows, ∀ field, row.has field = true ↔ field ∈ v.fields) ∧
    v.isValid = true ∧
    (∀ (s : Session) (name : String), s.registerTable name v = .ok (s.registerView name v) ∧
      ∃ s', s.registerTable name (.ofRows v.rows.toList none) = .ok s') ∧
    (∀ name, (everything (.derived q name)).execute engine tables = .ok v) ∧
    (∀ name renamed, (everything (.table name renamed)).execute engine (tables.put name v) = .ok v) ∧
    ∃ exprs, q.selected engine tables = .ok exprs ∧ v.fields = exprs.map (Expr.columnName exprs) := by
  have hv := complete_execute h
  refine ⟨hv.nodup, fun row hrow => hv.has_iff hrow, ?_, fun s name => ⟨?_, ?_⟩, fun name => ?_,
    fun name renamed => ?_, fields_execute h⟩
  · rw [View.isValid, hv.undeclared?_eq_none]
    rfl
  · exact Session.registerTable_eq_ok hv.undeclared?_eq_none s name
  · exact ⟨_, Session.registerTable_eq_ok hv.undeclared?_ofRows s name⟩
  · exact execute_everything hv (by rw [loadFactor, h])
  · exact execute_everything hv (by rw [loadFactor, Labelled.get?_put_self])

/-- A cell that is not declared, and one that is missing. -/
def unchecked : View :=
  ⟨["x"], #[.ofList [("x", .ofNat 1), ("y", .ofNat 2)], .empty, .ofList [("x", .ofNat 1)]]⟩

/-- The distinct pairs of numbers of a table of which the first is not greater. -/
def orderedPairs : Statement :=
  .select (.leftJoin (.factor (.table "t" (some "a"))) (.table "t" (some "b"))
      (.binary .le (.qualified "a" "x") (.qualified "b" "x")))
    { selecting [.wildcard, .expr (.aliased (.qualified "a" "x") "z")] with quantifier := some .distinct }

theorem execute_wellFormed_orderedPairs : unchecked.isValid = false ∧
    ∃ v, orderedPairs.execute .builtin (.ofList [("t", unchecked)]) = .ok v ∧
      v.fields = ["a.x", "b.x", "z"] ∧ v.size = 2 ∧ v.fields.Nodup ∧ v.isValid = true ∧
      (everything (.derived orderedPairs "c")).execute .builtin (.ofList [("t", unchecked)]) = .ok v := by
  refine ⟨by decide +kernel, ?_⟩
  have hresult : ((orderedPairs.execute .builtin (.ofList [("t", unchecked)])).toOption.any
      fun v => v.fields == ["a.x", "b.x", "z"] && v.size == 2) = true := by decide +kernel
  obtain ⟨v, hv, hshape⟩ := (Option.any_eq_true _ _).mp hresult
  obtain ⟨hfields, hsize⟩ := Bool.and_eq_true_iff.mp hshape
  have hv := eq_ok_of_toOption hv
  obtain ⟨hnodup, -, hvalid, -, hderived, -⟩ := execute_wellFormed hv
  exact ⟨v, hv, eq_of_beq hfields, eq_of_beq hsize, hnodup, hvalid, hderived "c"⟩

end Statement

end TableQuery
