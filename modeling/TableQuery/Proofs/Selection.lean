/-
How a result comes about.

A query prepares its rows, puts the rows to select from in order, limits them, and evaluates what is
selected in each row (`Step.prepare`, `Step.ordered`, `Step.project`).

* `Step.project_answers` — the rows of a result, each by what is selected in one row;
* `Statement.exists_of_execute_eq_ok` — the contexts that a query comes by on its way.
-/
import TableQuery.Proofs.Grouped

namespace TableQuery

namespace Step

variable {engine : Engine} {c : Context} {exprs : List Expr} {names : List String}

/-- What a query does before it selects. -/
def prepare (engine : Engine) (clauses : Clauses) : Step Unit := do
  clauses.condition.forM (filter engine)
  if !clauses.groupBy.isEmpty then discard (groupBy engine clauses.groupBy)
  clauses.having.forM (filter engine)

/-- Computes windows and puts rows in order. -/
def arranged (engine : Engine) (exprs : List Expr) (order : List OrderItem) : Step Unit := do
  exprs.forM (computeWindow engine)
  arrange engine exprs order

/-- Puts rows in order, and gives what is to be selected under which names. -/
def ordered (engine : Engine) (items : List SelectItem) (order : List OrderItem) :
    Step (List Expr × List String) := do
  let c ← get
  let exprs ← lift ((items.mapM c.itemExprs).map List.flatten)
  let names ← lift (columnNames exprs)
  arranged engine exprs order
  return (exprs, names)

/-- What is selected in a row. -/
def selectedRow (engine : Engine) (exprs : List Expr) (names : List String) (i : Nat) :
    Step Row := do
  let values ← Evaluator.values engine (Expr.evaluators engine exprs) i false
  return Labelled.ofList (names.zip values)

theorem runClauses_eq (engine : Engine) (clauses : Clauses) : runClauses engine clauses =
    prepare engine clauses >>= fun _ =>
      Step.select engine clauses.items clauses.quantifier clauses.orderBy clauses.limit := by
  rw [runClauses, prepare, bind_assoc]
  congr 1
  funext _
  cases !clauses.groupBy.isEmpty
  · rfl
  · exact (bind_assoc _ _ _).symm

theorem selectAll_eq (engine : Engine) (items : List SelectItem) (order : List OrderItem)
    (bounds : Option Limit) : selectAll engine items order bounds = (do
      let selected ← ordered engine items order
      bounds.forM limit
      project engine selected.1 selected.2) := by
  rw [selectAll, ordered]
  simp only [arranged, bind_assoc, pure_bind]

theorem exists_of_selectAll_eq_ok {items : List SelectItem} {order : List OrderItem} {v : View}
    {d : Context} (h : selectAll engine items order none c = .ok v d) :
    ∃ exprs names c', ordered engine items order c = .ok (exprs, names) c' ∧
      project engine exprs names c' = .ok v d := by
  rw [selectAll_eq] at h
  obtain ⟨⟨exprs, names⟩, c', hordered, hproject⟩ := exists_of_bind_eq_ok h
  exact ⟨exprs, names, c', hordered, hproject⟩

theorem runIn_selectAll_limit {items : List SelectItem} {order : List OrderItem} {d : Context}
    (h : ordered engine items order c = .ok (exprs, names) d) (bounds : Limit) :
    (selectAll engine items order (some bounds)).runIn c =
      (project engine exprs names).runIn (d.reorder (bounds.places d.size)) := by
  rw [selectAll_eq, runIn_bind_of_ok h]
  rfl

/-- What is selected is known before windows are computed and rows are sorted. -/
theorem ordered_eq_ok {items : List SelectItem} {order : List OrderItem} {d : Context} :
    ordered engine items order c = .ok (exprs, names) d ↔
      (∃ l, items.mapM c.itemExprs = .ok l ∧ exprs = l.flatten) ∧ columnNames exprs = .ok names ∧
        arranged engine exprs order c = .ok () d := by
  constructor
  · intro h
    rw [ordered, get_bind] at h
    obtain ⟨exprs', c', hlift, hnext⟩ := exists_of_bind_eq_ok h
    obtain ⟨hexprs, rfl⟩ := lift_eq_ok hlift
    obtain ⟨names', c'', hlift', hlast⟩ := exists_of_bind_eq_ok hnext
    obtain ⟨hnames, rfl⟩ := lift_eq_ok hlift'
    obtain ⟨⟨⟩, d', harranged, hd⟩ := exists_of_bind_eq_ok hlast
    cases hd
    exact ⟨exists_of_map_eq_ok hexprs, hnames, harranged⟩
  · rintro ⟨⟨l, hl, rfl⟩, hnames, harranged⟩
    rw [ordered, get_bind, hl]
    show (lift (columnNames l.flatten) >>= _) c = _
    rw [hnames]
    show (arranged engine l.flatten order >>= _) c = _
    rw [bind_of_ok harranged]
    rfl

/-- What items stand for depends on the names and the fields of views. -/
theorem itemExprs_congr {d : Context} (hdirect : d.direct = c.direct)
    (hviews : d.frame.views.map (fun p => (p.1, p.2.fields)) =
      c.frame.views.map fun p => (p.1, p.2.fields)) : d.itemExprs = c.itemExprs := by
  have hcolumns : ∀ table (v w : View), v.fields = w.fields →
      d.viewColumns table v = c.viewColumns table w := by
    intro table v w h
    rw [Context.viewColumns, Context.viewColumns, h, hdirect]
  have hview : ∀ table, (d.frame.view? table).map View.fields =
      (c.frame.view? table).map View.fields := by
    intro table
    have hlookup := fun f : Frame => lookup_map_snd (fun _ v => v.fields) f.views table
    rw [Frame.view?, Frame.view?, ← hlookup, ← hlookup]
    exact congrArg _ hviews
  funext item
  cases item with
  | expr e => rfl
  | wildcard =>
    have hall : ∀ (f : Frame) (e : Context), f.views.flatMap (fun p => e.viewColumns p.1 p.2) =
        (f.views.map fun p => (p.1, p.2.fields)).flatMap fun p => e.viewColumns p.1 ⟨p.2, #[]⟩ := by
      intro f e
      rw [List.flatMap_map]
      rfl
    show Except.ok _ = Except.ok _
    rw [hall, hall, hviews]
    congr 1
    exact congrArg (fun g => List.flatMap g _) (funext fun p => hcolumns p.1 _ _ rfl)
  | tableWildcard table =>
    have ht := hview table
    rw [Context.itemExprs, Context.itemExprs]
    cases hd : d.frame.view? table <;> cases hc : c.frame.view? table <;> rw [hd, hc] at ht
    · cases ht
    · cases ht
    · exact congrArg Except.ok (hcolumns table _ _ (Option.some.inj ht))

/-- Items stand for columns of tables besides what is written. -/
theorem forall_itemExprs {P : Expr → Prop} (hfield : ∀ name, P (.field name))
    (hqualified : ∀ table name, P (.qualified table name)) {items : List SelectItem}
    {l : List (List Expr)} (hitems : ∀ e, .expr e ∈ items → P e)
    (h : items.mapM c.itemExprs = .ok l) : ∀ e ∈ l.flatten, P e := by
  have hcolumns : ∀ table v, ∀ e ∈ c.viewColumns table v, P e := by
    intro table v e he
    obtain ⟨name, -, rfl⟩ := List.mem_map.mp he
    split
    · exact hfield name
    · exact hqualified table name
  obtain ⟨g, hg, rfl⟩ := exists_of_mapM_eq_ok h
  intro e he
  obtain ⟨es, hes, he⟩ := List.mem_flatten.mp he
  obtain ⟨item, hitem, rfl⟩ := List.mem_map.mp hes
  have hgi := hg item hitem
  cases item with
  | expr e' =>
    rw [← Except.ok.inj hgi] at he
    exact List.mem_singleton.mp he ▸ hitems e' hitem
  | wildcard =>
    rw [← Except.ok.inj hgi] at he
    obtain ⟨⟨table, v⟩, -, he⟩ := List.mem_flatMap.mp he
    exact hcolumns table v e he
  | tableWildcard table =>
    rw [Context.itemExprs] at hgi
    split at hgi
    · rw [← Except.ok.inj hgi] at he
      exact hcolumns _ _ e he
    · cases hgi

theorem Lasting.arranged {admits : Expr → Prop} {I : Context → Prop} {J : Nat → Context → Prop}
    (L : Lasting engine admits I J) {order : List OrderItem}
    (hexprs : ∀ e ∈ exprs, e.Admitted admits)
    (horder : ∀ item ∈ order, item.expr.Admitted admits) :
    Ensures I (arranged engine exprs order) fun _ => I := by
  rw [Step.arranged]
  refine Ensures.bind (Q := fun _ => I) (.forM _ fun e he => ?_) fun _ => L.arrange hexprs horder
  exact L.computeWindow e (hexprs e he).partition

/-- Putting rows in order does not change what is noted of how they are grouped. -/
theorem marks_arranged {order : List OrderItem} {d : Context}
    (h : arranged engine exprs order c = .ok () d) : d.marks = c.marks :=
  (lasting_marks engine c.marks).arranged (fun _ _ => admitted_aggregates)
    (fun _ _ => admitted_aggregates) rfl h

/-! ### Conditions -/

/-- What is found at the places of a list are its items. -/
theorem map_range_getD {α : Type} (places : List Nat) (f : Nat → α) :
    (List.range places.length).map (fun k => f (places.getD k 0)) = places.map f := by
  refine List.ext_getElem (by simp) fun k _ hk => ?_
  simp at hk
  simp [hk]

theorem truePlaces_range (truth : Nat → Bool) (n : Nat) :
    truePlaces ((List.range n).map truth).toArray = (List.range n).filter truth := by
  have hzip : ((List.range n).map truth).zipIdx = (List.range n).map fun i => (truth i, i) := by
    refine List.ext_getElem (by simp) fun i hi _ => ?_
    simp
  rw [truePlaces, hzip, List.filter_map, List.map_map]
  exact List.map_id _

/-- A condition keeps the rows for which it is true. -/
theorem filter_of_truth {e : Expr} {truth : Nat → Bool}
    (hlook : ∀ i < c.size, c.InGroup i ∨ e.AggregateFree engine.functions)
    (htruth : ∀ i < c.size, ((e.evaluator engine).holds engine i).runIn c = .ok (truth i)) :
    ∃ d, c.Touched (· < c.size) d ∧ filter engine e c = .ok () { d.replaceFrame
      (c.frame.take ((List.range c.size).filter truth)) with sawPlainColumn := false } := by
  have hanswers := (local_holds engine e).rows hlook
  rw [mapM_eq_ok fun i hi => htruth i (List.mem_range.mp hi)] at hanswers
  obtain ⟨d, hrows, t, -⟩ := hanswers.eq_ok
  refine ⟨d, t, ?_⟩
  rw [filter, bind_of_ok hrows]
  simp only [truePlaces_range]
  rw [← t.frame]
  rfl

/-! ### Preparation -/

theorem loaded_prepare {clauses : Clauses} (h : clauses.groupBy = []) :
    Ensures Context.Loaded (prepare engine clauses) fun _ => Context.Loaded := by
  rw [prepare, h]
  refine (Ensures.forM_option _ fun e _ => loaded_filter e).bind fun _ => ?_
  exact .forM_option _ fun e _ => loaded_filter e

theorem grouped_prepare {clauses : Clauses} (h : clauses.groupBy ≠ []) :
    Ensures Context.Loaded (prepare engine clauses)
      fun _ c => c.Grouped ∧ c.sawPlainColumn = false ∧ c.Forgotten := by
  have hempty : (!clauses.groupBy.isEmpty) = true := by simpa using h
  rw [prepare, if_pos hempty]
  refine (Ensures.forM_option _ fun e _ => loaded_filter e).bind fun _ => ?_
  refine (Ensures.bind (grouped_groupBy clauses.groupBy) fun _ => .pure _ fun _ h => h).bind
    (Q := fun _ c => c.Grouped ∧ c.sawPlainColumn = false ∧ c.Forgotten)
    fun _ => .forM_option _ fun e _ => ?_
  intro c a d hc he
  exact ⟨(lasting_grouped engine).filter trivial hc.1 he,
    (lasting_unseen engine).filter trivial hc.2.1 he, forgotten_filter e trivial he⟩

theorem values_singleton (engine : Engine) (e : Expr) (i : Nat) (b : Bool) :
    Evaluator.values engine (Expr.evaluators engine [e]) i b =
      (do return [← (e.evaluator engine).value engine i b]) := by
  simp [Evaluator.values, Expr.evaluators]

theorem local_selectedRow (engine : Engine) (exprs : List Expr) (names : List String) :
    Local (∀ e ∈ exprs, e.AggregateFree engine.functions) (selectedRow engine exprs names) :=
  (local_values engine exprs false).bind fun _ => .pure _ _

/-- The rows of a result are what is selected in each row of the context, if it has rows at all. -/
theorem project_answers (hsize : c.size ≠ 0) (hempty : c.sourceEmpty = false)
    (hrows : ∀ i < c.size, c.InGroup i ∨ ∀ e ∈ exprs, e.AggregateFree engine.functions) :
    Answers (project engine exprs names) c (fun _ _ => True)
      (((List.range c.size).mapM fun i => (selectedRow engine exprs names i).runIn c).map
        fun rows => ⟨names, rows.toArray⟩) := by
  have hanswers := (local_selectedRow engine exprs names).rows hrows
  have hproject : Answers (project engine exprs names) c (fun _ _ => True)
      ((((List.range c.size).mapM fun i => (selectedRow engine exprs names i).runIn c).map
        List.toArray) >>= fun found => .ok ⟨names, found⟩) := by
    refine Answers.of_eq (hanswers.bind (f := fun found => do
      let c ← get
      reset
      return ⟨names, if c.sourceEmpty && !c.aggregated then #[] else found⟩)
      fun found d _ hd => ?_) ?_
    · refine .of_eq (Answers.pure (a := View.mk names found) (c := {}) trivial) ?_
      have hd' : d.sourceEmpty = false := hd.1.sourceEmpty.trans hempty
      rw [get_bind, hd']
      rfl
    · rw [project, get_bind, if_neg fun h => hsize h.1]
      simp only [hsize, if_false]
      rfl
  refine hproject.congr ?_
  cases (List.range c.size).mapM fun i => (selectedRow engine exprs names i).runIn c <;> rfl

/-- What is selected in each row makes up the result. -/
theorem project_of_rows {row : Nat → Row} (hsize : c.size ≠ 0) (hempty : c.sourceEmpty = false)
    (hlook : ∀ i < c.size, c.InGroup i ∨ ∀ e ∈ exprs, e.AggregateFree engine.functions)
    (hrow : ∀ i < c.size, (selectedRow engine exprs names i).runIn c = .ok (row i)) :
    (project engine exprs names).runIn c =
      .ok ⟨names, ((List.range c.size).map row).toArray⟩ := by
  rw [(project_answers hsize hempty hlook).runIn,
    mapM_eq_ok fun i hi => hrow i (List.mem_range.mp hi)]
  rfl

theorem exists_of_project_eq_ok {v : View} (hsize : c.size ≠ 0) (hempty : c.sourceEmpty = false)
    (hlook : ∀ i < c.size, c.InGroup i ∨ ∀ e ∈ exprs, e.AggregateFree engine.functions)
    (hv : (project engine exprs names).runIn c = .ok v) :
    ∃ row : Nat → Row, (∀ i < c.size, (selectedRow engine exprs names i).runIn c = .ok (row i)) ∧
      v = ⟨names, ((List.range c.size).map row).toArray⟩ := by
  rw [(project_answers hsize hempty hlook).runIn] at hv
  cases hmapM : (List.range c.size).mapM fun i => (selectedRow engine exprs names i).runIn c with
  | error e =>
    rw [hmapM] at hv
    cases hv
  | ok l =>
    rw [hmapM] at hv
    obtain ⟨row, hrow, rfl⟩ := exists_of_mapM_eq_ok hmapM
    exact ⟨row, fun i hi => hrow i (List.mem_range.mpr hi), (Except.ok.inj hv).symm⟩

/-- When no group is left there is no result. -/
theorem project_without_groups (hsize : c.size = 0) (hgrouped : c.grouped = true)
    (hempty : c.emptyGroup = none) :
    project engine exprs names c = .ok (View.empty names) {} := by
  rw [project, get_bind, if_pos ⟨hsize, hgrouped, by rw [hempty]; rfl⟩]
  rfl

/-- The row of Null that stands in for no rows. -/
def standIn (c : Context) : Context :=
  { c.replaceFrame (c.frame.nullRow.modifyRow 0 fun r => { r with group := c.emptyGroup }) with
    sourceEmpty := true }

theorem size_standIn (c : Context) : (standIn c).size = 1 := by
  show (c.frame.nullRow.modifyRow 0 _).size = 1
  rw [Frame.size_modifyRow]
  rfl

end Step

theorem Context.Vacant.arranged_eq {engine : Engine} {c : Context} (h : c.Vacant)
    (exprs : List Expr) (order : List OrderItem) :
    Step.arranged engine exprs order c = .ok () c := by
  rw [Step.arranged, Step.bind_of_ok (forM_eq h.computeWindow_eq exprs), h.arrange_eq]

namespace Statement

open Step

variable {engine : Engine} {tables : Tables} {source : Source} {clauses : Clauses}

theorem execute_select (engine : Engine) (tables : Tables) (source : Source) (clauses : Clauses) :
    execute engine tables (.select source clauses) = runIn {} (do
      discard (loadSource engine tables source)
      prepare engine clauses
      Step.select engine clauses.items clauses.quantifier clauses.orderBy clauses.limit) := by
  rw [execute, runClauses_eq]

/-- On its way to a result a query loads its source and prepares its rows. -/
theorem exists_of_execute_eq_ok {v : View}
    (h : execute engine tables (.select source clauses) = .ok v) :
    ∃ aliases s p d, loadSource engine tables source {} = .ok aliases s ∧
      prepare engine clauses s = .ok () p ∧
      Step.select engine clauses.items clauses.quantifier clauses.orderBy clauses.limit p = .ok v d := by
  rw [execute_select] at h
  obtain ⟨d, h⟩ := runIn_eq_ok.mp h
  obtain ⟨⟨⟩, s, hs, h⟩ := exists_of_bind_eq_ok h
  obtain ⟨aliases, s', hload, hs⟩ := exists_of_bind_eq_ok hs
  cases hs
  obtain ⟨⟨⟩, p, hp, h⟩ := exists_of_bind_eq_ok h
  exact ⟨aliases, s, p, d, hload, hp, h⟩

/-- With its source loaded and its rows prepared a query has only to select. -/
theorem execute_of_prepared {aliases : List String} {s p : Context}
    (hload : loadSource engine tables source {} = .ok aliases s)
    (hprepare : prepare engine clauses s = .ok () p) :
    execute engine tables (.select source clauses) =
      (Step.select engine clauses.items clauses.quantifier clauses.orderBy clauses.limit).runIn p := by
  rw [execute_select, runIn_bind_of_ok (discard_of_ok hload), runIn_bind_of_ok hprepare]

/-! ### A small table -/

/-- A table of three numbers. -/
def numbers : Tables := .ofList [("t", ⟨["x"],
  #[.ofList [("x", .ofNat 1)], .ofList [("x", .ofNat 2)], .ofList [("x", .ofNat 3)]]⟩)]

/-- A table of one number. -/
def number : Tables := .ofList [("t", ⟨["x"], #[.ofList [("x", .ofNat 1)]]⟩)]

/-- Selects items from all rows of a table. -/
def selecting (items : List SelectItem) : Clauses := ⟨none, items, none, [], none, [], none⟩

end Statement

end TableQuery
