/-
Distinct rows are the first of their kind.

To remove duplicates a query makes its result a view, groups it by all of its columns, and selects the
columns from the groups. The row of a group reads like the first row of the view that fell into the group,
so what is left of the result are the rows that equal no earlier one. The cases without rows and without
columns need no exception: no rows have no groups, where a row of Null stands in and is dropped again, and
rows without columns are one group.

* `View.distinct`, `View.IsDistinct` — the rows that equal no earlier one, and views of which nothing is left
  out so;
* `Context.Displays` — every column of a view is read in the rows of a context as in certain rows of the view;
* `Step.distinctRows_eq` — grouping a view by its columns leaves its distinct rows;
* `Statement.execute_distinct` — the result of a query for distinct rows.
-/
import TableQuery.Proofs.CompleteViews
import TableQuery.Proofs.KeyPartition
import TableQuery.Proofs.Projection

namespace TableQuery

/-! ### Views of distinct rows -/

theorem mem_firstPlaces {key : Nat → List Value} {n j : Nat} :
    j ∈ firstPlaces key n ↔ j < n ∧ ∀ i < j, ¬List.Forall₂ Value.Same (key i) (key j) := by
  simp [firstPlaces, ← Value.sameKeys_iff]

namespace View

/-- The cell that an expression reads in a row, if it is a column. -/
def read (v : View) (i : Nat) : Expr → Value
  | .field name => v.value i name
  | _ => .null

/-- The cell that is kept of a row for a key, if it is a field. -/
def keyCell (v : View) (i : Nat) : KeyColumn → Value
  | .field _ name => v.value i name
  | .label _ => .null

/-- The view without the rows that equal an earlier one in all columns. -/
def distinct (v : View) : View := v.take (firstPlaces v.cells v.size)

/-- No row equals an earlier one in all columns. -/
def IsDistinct (v : View) : Prop :=
  ∀ i j, i < j → j < v.size → ¬List.Forall₂ Value.Same (v.cells i) (v.cells j)

variable {v : View}

theorem cells_take {places : List Nat} (hplaces : ∀ i ∈ places, i < v.size) {k i : Nat}
    (hk : places[k]? = some i) : (v.take places).cells k = v.cells i := by
  have hsome : places.filterMap (v.rows[·]?) = places.map fun i => (v.rows[i]?).getD .empty := by
    refine List.filterMap_eq_map_iff_forall_eq_some.mpr fun i hi => ?_
    have hlt : i < v.rows.size := hplaces i hi
    simp [hlt]
  have hlt : i < v.rows.size := hplaces i (List.mem_of_getElem? hk)
  have hrow : (v.take places).rows[k]? = v.rows[i]? := by
    rw [take, hsome, List.getElem?_toArray, List.getElem?_map, hk]
    simp [hlt]
  refine List.map_congr_left fun name _ => ?_
  rw [value, hrow, value]

theorem isDistinct_distinct (v : View) : v.distinct.IsDistinct := by
  have hplaces : ∀ i ∈ firstPlaces v.cells v.size, i < v.size := fun i hi => (mem_firstPlaces.mp hi).1
  intro k l hkl hl
  rw [distinct, size_take v hplaces] at hl
  have hk := List.getElem?_eq_getElem (hkl.trans hl)
  have hl' := List.getElem?_eq_getElem hl
  rw [distinct, cells_take hplaces hk, cells_take hplaces hl']
  -- places stand in order, so the row at the later one equals none before it
  have hlt := List.pairwise_iff_getElem.mp (pairwise_firstPlaces v.cells v.size) k l
    (hkl.trans hl) hl hkl
  exact (mem_firstPlaces.mp (List.mem_of_getElem? hl')).2 _ hlt

/-- Nothing is left out of distinct rows. -/
theorem IsDistinct.distinct_eq (h : v.IsDistinct) : v.distinct = v := by
  have hall : firstPlaces v.cells v.size = List.range v.size := by
    refine List.filter_eq_self.mpr fun j hj => ?_
    have hnone := fun i hi => h i j hi (List.mem_range.mp hj)
    simpa [← Value.sameKeys_iff] using hnone
  rw [distinct, hall, take_range]

/-- Distinct rows are distinct still when a limit keeps some of them. -/
theorem IsDistinct.slice (h : v.IsDistinct) (first count : Nat) : (v.slice first count).IsDistinct := by
  intro i j hij hj
  have hbounds : j < count ∧ first + j < v.size := by
    simp only [size, View.slice, Array.size_extract] at hj ⊢
    omega
  have hcells : ∀ k < count, (v.slice first count).cells k = v.cells (first + k) := fun k hk =>
    List.map_congr_left fun name _ => v.value_slice hk name
  rw [hcells i (hij.trans hbounds.1), hcells j hbounds.1]
  exact h _ _ (by omega) hbounds.2

end View

/-! ### Rows that read like those of a view -/

/-- The rows of the context are those of the view at the given places, as far as the columns of the view are
read in them, which the context knows under one alias. -/
structure Context.Displays (table : String) (v : View) (places : List Nat) (c : Context) : Prop where
  size : c.size = places.length
  direct : ∀ name ∈ v.fields, c.direct.get? name = some table
  cell : ∀ {k i}, places[k]? = some i → ∀ name ∈ v.fields, c.cell ⟨table, name⟩ k = v.value i name

namespace Context.Displays

variable {engine : Engine} {c : Context} {table : String} {v : View} {places : List Nat}

theorem reads (h : c.Displays table v places) {k i : Nat} (hk : places[k]? = some i) {name : String}
    (hname : name ∈ v.fields) : c.Reads engine (.field name) k (v.value i name) := by
  rw [← h.cell hk name hname]
  exact reads_of_direct (o := ⟨table, name⟩) rfl (h.direct name hname) k

/-- The columns are read in the row of Null, too, that stands in for no rows. -/
theorem reads_standIn (h : c.Displays table v places) {name : String} (hname : name ∈ v.fields) :
    ∃ x, (Step.standIn c).Reads engine (.field name) 0 x :=
  ⟨_, reads_of_direct (c := Step.standIn c) (o := ⟨table, name⟩) rfl (h.direct name hname) 0⟩

/-- A look at rows leaves them as they are. -/
theorem touched {rows : Nat → Prop} {d : Context} (h : c.Displays table v places)
    (t : c.Touched rows d) : d.Displays table v places where
  size := t.size.trans h.size
  direct name hname := by
    rw [t.direct]
    exact h.direct name hname
  cell hk name hname := by
    rw [Context.cell, t.frame]
    exact h.cell hk name hname

/-- A context displays what its only view holds. -/
theorem of_views {w : View} (hresolved : c.Resolved) (hviews : c.frame.views = [(table, w)])
    (hsize : c.size = places.length) (hfields : ∀ name ∈ v.fields, w.declares name = true)
    (hcell : ∀ {k i}, places[k]? = some i → ∀ name ∈ v.fields, w.value k name = v.value i name) :
    c.Displays table v places where
  size := hsize
  direct name hname := by
    refine (hresolved.direct name table).mpr fun t => ?_
    simp [Frame.Declares, hviews, hfields name hname]
  cell hk name hname := by
    rw [← hcell hk name hname, Context.cell, Frame.view?, hviews]
    simp

end Context.Displays

namespace Step

open Context

variable {engine : Engine} {c : Context} {v : View} {places : List Nat} {table : String}

theorem views_addView (h : addView table v {} = .ok ⟨⟩ c) :
    c.frame.views = [(table, v)] ∧ c.size = v.size := by
  obtain ⟨direct, ambiguous, hc⟩ := (Context.ofSize v.size).registerFields_eq table v.fields
  rw [addView_new, hc] at h
  cases h
  exact ⟨rfl, Frame.size_ofSize v.size⟩

/-- A view that is alone is displayed as it is. -/
theorem displays_addView (h : addView table v {} = .ok ⟨⟩ c) :
    c.Displays table v (List.range v.size) := by
  have hnamed := named_addView table v Context.named_empty h
  obtain ⟨hviews, hsize⟩ := views_addView h
  refine .of_views (hnamed.tracks.resolved hnamed.nodup) hviews (by rw [hsize, List.length_range])
    (fun name hname => List.contains_iff_mem.mpr hname) fun {k i} hk name _ => ?_
  obtain ⟨-, rfl⟩ := List.getElem?_eq_some_iff.mp hk
  rw [List.getElem_range]

/-- Expressions that are read as columns have the values of their cells. -/
theorem values_of_reads {i : Nat} {x : Expr → Value} {es : List Expr}
    (h : ∀ e ∈ es, c.Reads engine e i (x e)) :
    (Evaluator.values engine (Expr.evaluators engine es) i false).runIn c = .ok (es.map x) := by
  have hvalues : ∀ (es : List Expr) saw, (∀ e ∈ es, c.Reads engine e i (x e)) →
      (Evaluator.values engine (Expr.evaluators engine es) i false).runIn
        { c with sawPlainColumn := saw } = .ok (es.map x) := by
    intro es
    induction es with
    | nil => exact fun _ _ => rfl
    | cons e es ih =>
      intro saw hes
      rw [Expr.evaluators, Evaluator.values, List.mapM_cons,
        runIn_bind_of_ok (hes e List.mem_cons_self saw)]
      have hrest := ih true fun e' he' => hes e' (List.mem_cons_of_mem e he')
      obtain ⟨d, hd⟩ := runIn_eq_ok.mp hrest
      exact runIn_bind_of_ok hd
  exact hvalues es c.sawPlainColumn h

/-- The columns of a view have the values of the row that is displayed. -/
theorem values_of_displays (h : c.Displays table v places) {k i : Nat} (hk : places[k]? = some i) :
    (Evaluator.values engine (Expr.evaluators engine (v.fields.map .field)) k false).runIn c =
      .ok (v.cells i) := by
  have hmap : (v.fields.map Expr.field).map (v.read i) = v.cells i := List.map_map
  rw [← hmap]
  refine values_of_reads fun e he => ?_
  obtain ⟨name, hname, rfl⟩ := List.mem_map.mp he
  exact h.reads hk hname

/-- Columns are no aggregates. -/
theorem aggregateFree_fields (r : Registry) (fields : List String) :
    ∀ e ∈ fields.map Expr.field, e.AggregateFree r := by
  intro e he
  obtain ⟨name, -, rfl⟩ := List.mem_map.mp he
  exact .of_field _ name

/-- Grouped by all of its columns, a view is left with the first rows of their kind, about which nothing is
remembered. -/
theorem displays_groupBy (hv : v.Complete) (hadd : addView table v {} = .ok ⟨⟩ c) :
    ∃ groups d, groupBy engine (v.fields.map .field) c = .ok groups d ∧
      d.Displays table v (firstPlaces v.cells v.size) ∧
      ∀ k label, d.remembered? engine k label = none := by
  have hnamed := named_addView table v Context.named_empty hadd
  have hdisplays := displays_addView hadd
  obtain ⟨hviews, hsize⟩ := views_addView hadd
  have hlabels : (v.fields.map Expr.field).map Expr.label = v.fields := by
    rw [List.map_map]
    exact List.map_id _
  let column (e : Expr) : KeyColumn := .field table e.label
  have hcolumns : (v.fields.map Expr.field).mapM c.keyColumn =
      .ok ((v.fields.map Expr.field).map column) := by
    refine mapM_eq_ok fun e he => ?_
    obtain ⟨name, hname, rfl⟩ := List.mem_map.mp he
    show (c.resolve name).map _ = _
    rw [Context.resolve, hdisplays.direct name hname]
    rfl
  have hkey : ∀ i < c.size, (Evaluator.values engine (Expr.evaluators engine (v.fields.map .field)) i
      false).runIn c = .ok (v.cells i) := fun i hi =>
    values_of_displays hdisplays (by rw [List.getElem?_range (hsize ▸ hi)])
  obtain ⟨c', t, hgroup⟩ := groupBy_of_values (by rw [hlabels]; exact hv.nodup)
    (aggregateFree_fields _ _) hcolumns hkey
  rw [hsize] at hgroup
  let columns := (v.fields.map Expr.field).map column
  let found := Bucket.ofKeys ((List.range v.size).map v.cells)
  have hfirsts : found.map (fun b => (b.members[0]?, b.key)) =
      (firstPlaces v.cells v.size).map fun i => (some i, v.cells i) :=
    Bucket.firsts_ofKeys v.cells v.size
  have hlength : found.length = (firstPlaces v.cells v.size).length := by
    simpa using congrArg List.length hfirsts
  have hmem : ∀ name ∈ v.fields, KeyColumn.field table name ∈ columns := fun name hname =>
    List.mem_map_of_mem (f := column) (List.mem_map_of_mem hname)
  have hcollapsed := named_collapseTo (t.named hnamed) columns found (groupsOfKeys c.frame v.cells)
  have hunseen : Context.Named { c'.collapseTo columns found (groupsOfKeys c.frame v.cells) with
    sawPlainColumn := false } := hcollapsed.congr rfl rfl rfl rfl
  refine ⟨_, _, hgroup, .of_views (w := keyView table columns found)
    (hunseen.tracks.resolved hunseen.nodup) ?_ ?_ ?_ ?_, ?_⟩
  · show (c'.collapseTo columns found (groupsOfKeys c.frame v.cells)).frame.views = _
    rw [collapseTo, frame_rebuildFields]
    show c'.frame.views.map _ = _
    rw [t.frame, hviews]
    rfl
  · show (c'.collapseTo columns found (groupsOfKeys c.frame v.cells)).size = _
    rw [Context.size, Frame.size, rows_collapseTo, ← hlength]
    simp [found, groupsOfKeys, show c.frame.size = v.size from hsize]
  · exact fun name hname => declares_keyView.mpr (hmem name hname)
  · intro k i hk name hname
    obtain ⟨b, hb, hkey⟩ : ∃ b, found[k]? = some b ∧ b.key = v.cells i := by
      have hpair := congrArg (·[k]?) hfirsts
      simp only [List.getElem?_map, hk, Option.map_some] at hpair
      obtain ⟨b, hb, hpair⟩ := Option.map_eq_some_iff.mp hpair
      exact ⟨b, hb, congrArg Prod.snd hpair⟩
    -- the key holds the cells of the row, each under its column
    have hcells : v.cells i = columns.map (v.keyCell i) := by
      rw [View.cells, List.map_map, List.map_map]
      rfl
    exact Context.value_keyView (v := v.keyCell i) (hmem name hname) hb (hkey.trans hcells)
  · -- all keys are columns, so none of them is kept under its label
    intro k label
    refine Option.eq_none_iff_forall_ne_some.mpr fun x hx => ?_
    obtain ⟨b, position, -, hposition, -⟩ := exists_key_of_remembered?
      (show (c'.collapseTo columns found (groupsOfKeys c.frame v.cells)).remembered? engine k label =
        some x from hx)
    obtain ⟨e, -, he⟩ := List.mem_map.mp (List.mem_of_getElem? hposition)
    cases he

/-- The displayed rows are selected as they are. -/
theorem project_of_displays (hv : v.Complete) (h : c.Displays table v places)
    (hplaces : ∀ i ∈ places, i < v.size) (hempty : c.sourceEmpty = false)
    (hagg : c.aggregated = false) :
    (project engine (v.fields.map .field) v.fields).runIn c = .ok (v.take places) := by
  have hfree := aggregateFree_fields engine.functions v.fields
  rw [hv.take_eq hplaces]
  by_cases hsize : c.size = 0
  · -- without rows a row of Null stands in, which is not kept as no aggregate was called
    have hnone : places = [] := List.eq_nil_of_length_eq_zero (h.size.symm.trans hsize)
    have hread : ∀ e ∈ v.fields.map Expr.field, ∃ x, (standIn c).Reads engine e 0 x := by
      intro e he
      obtain ⟨name, hname, rfl⟩ := List.mem_map.mp he
      exact h.reads_standIn hname
    choose! x hx using hread
    have hrow : (selectedRow engine (v.fields.map .field) v.fields 0).runIn (standIn c) =
        .ok (.ofList (v.fields.zip ((v.fields.map Expr.field).map x))) := by
      rw [selectedRow, runIn_bind_pure, values_of_reads hx]
      rfl
    rw [hnone, project_of_standIn hsize hagg hfree hrow]
    rfl
  · have hrow : ∀ k < c.size, (selectedRow engine (v.fields.map .field) v.fields k).runIn c =
        .ok (.ofList (v.fields.zip (v.cells (places.getD k 0)))) := by
      intro k hk
      have hk' : places[k]? = some (places.getD k 0) := by
        rw [h.size] at hk
        simp [hk]
      rw [selectedRow, runIn_bind_pure, values_of_displays h hk']
      rfl
    rw [project_of_rows hsize hempty (fun _ _ => .inr hfree) hrow, h.size]
    exact congrArg (fun rows => Except.ok (View.mk v.fields (List.toArray rows)))
      (map_range_getD places fun i => Labelled.ofList (v.fields.zip (v.cells i)))

/-- Columns with different names keep their names. -/
theorem columnNames_fields {fields : List String} (h : fields.Nodup) :
    columnNames (fields.map Expr.field) = .ok fields := by
  have hnames : (fields.map Expr.field).map (Expr.columnName (fields.map Expr.field)) = fields := by
    rw [List.map_map]
    refine (List.map_congr_left fun name _ => ?_).trans (List.map_id _)
    show (if _ then _ else _) = _
    exact ite_self _
  rw [columnNames, hnames, duplicateLabel?_eq_none.mpr ⟨h, fun _ _ => List.not_mem_nil⟩]

theorem itemExprs_exprs (c : Context) (es : List Expr) :
    ((es.map SelectItem.expr).mapM c.itemExprs).map List.flatten = .ok es := by
  rw [itemExprs_of_exprs]
  exact congrArg Except.ok (flatten_map_singleton es)

/-- Grouping a view by its columns and selecting them leaves its distinct rows. -/
theorem distinctRows_eq (hv : v.Complete) : distinctRows engine v [] none = .ok v.distinct := by
  obtain ⟨c, hadd⟩ : ∃ c, addView distinctAlias v {} = .ok ⟨⟩ c := ⟨_, addView_new _ _⟩
  obtain ⟨groups, d, hgroup, hdisplays, -⟩ := @displays_groupBy engine _ _ _ hv hadd
  have hgrouped := (grouped_groupBy _ (loaded_addView hadd) hgroup).1
  have hagg := unaggregated_groupBy (aggregateFree_fields _ _) (unaggregated_addView hadd) hgroup
  rw [distinctRows, runIn_bind_of_ok hadd, runIn_bind_of_ok (discard_of_ok hgroup),
    runIn_selectAll (itemExprs_exprs d _) (columnNames_fields hv.nodup) fun e he => ?_]
  · exact project_of_displays hv hdisplays (fun i hi => (mem_firstPlaces.mp hi).1)
      hgrouped.sourceEmpty hagg
  · obtain ⟨name, -, rfl⟩ := List.mem_map.mp he
    rfl

/-- All columns of a view are selected from it as it is. -/
theorem selectAll_wildcard (hv : v.Complete) (hadd : addView table v {} = .ok ⟨⟩ c) :
    (selectAll engine [.wildcard] [] none).runIn c = .ok v := by
  have hdisplays := displays_addView hadd
  have hexprs : ([SelectItem.wildcard].mapM c.itemExprs).map List.flatten =
      .ok (v.fields.map Expr.field) := by
    have hcolumns : c.viewColumns table v = v.fields.map Expr.field :=
      List.map_congr_left fun name hname => if_pos (hdisplays.direct name hname)
    have hitem : c.itemExprs .wildcard = .ok (v.fields.map Expr.field) := by
      rw [Context.itemExprs, (views_addView hadd).1]
      simp [hcolumns]
    rw [List.mapM_cons, hitem]
    simp [Except.map]
  rw [runIn_selectAll hexprs (columnNames_fields hv.nodup) fun e he => ?_]
  · rw [project_of_displays hv hdisplays (fun i hi => List.mem_range.mp hi)
      (loaded_addView hadd).sourceEmpty (unaggregated_addView hadd), v.take_range]
  · obtain ⟨name, -, rfl⟩ := List.mem_map.mp he
    rfl

end Step

namespace Statement

open Step

variable {engine : Engine} {tables : Tables} {source : Source} {clauses : Clauses} {v : View}

/-- A query for distinct rows that are in no order gives what the query for all rows gives, without the rows
that equal an earlier one. What is left is distinct, and distinct rows of it are the same again. -/
theorem execute_distinct (horder : clauses.orderBy = [])
    (hv : execute engine tables (.select source { clauses with quantifier := none, limit := none }) =
      .ok v) (bounds : Option Limit) :
    execute engine tables (.select source { clauses with quantifier := some .distinct, limit := bounds }) =
        .ok (v.distinct.limited bounds) ∧
      (v.distinct.limited bounds).IsDistinct ∧
      ∀ name, execute engine tables (.select
        (.factor (.derived (.select source
          { clauses with quantifier := some .distinct, limit := bounds }) name))
        { selecting [.wildcard] with quantifier := some .distinct }) =
          .ok (v.distinct.limited bounds) := by
  have hcomplete := complete_execute hv
  have hdistinct := @distinctRows_eq engine _ hcomplete
  have hfirst : execute engine tables (.select source
      { clauses with quantifier := some .distinct, limit := bounds }) =
        .ok (v.distinct.limited bounds) := by
    obtain ⟨aliases, s, p, d, hload, hprepare, hselect⟩ := exists_of_execute_eq_ok hv
    have hprepare' : prepare engine
      { clauses with quantifier := some .distinct, limit := bounds } s = .ok ⟨⟩ p := hprepare
    rw [execute_of_prepared hload hprepare']
    rw [select.eq_def] at hselect ⊢
    dsimp only at hselect ⊢
    rw [horder] at hselect ⊢
    rw [runIn_bind_of_ok hselect, runIn_lift]
    cases bounds with
    | none => exact hdistinct
    | some l => exact distinctRows_limited hdistinct l
  have hagain : (v.distinct.limited bounds).IsDistinct := by
    cases bounds with
    | none => exact v.isDistinct_distinct
    | some l => exact v.isDistinct_distinct.slice _ _
  refine ⟨hfirst, hagain, fun name => ?_⟩
  -- the result is the only view of the source, and its rows are distinct already
  have hcomplete' := complete_execute hfirst
  obtain ⟨c, hadd⟩ : ∃ c, addView name (v.distinct.limited bounds) {} = .ok ⟨⟩ c :=
    ⟨_, addView_new _ _⟩
  have hload : loadSource engine tables (.factor (.derived (.select source
      { clauses with quantifier := some .distinct, limit := bounds }) name)) {} = .ok [name] c := by
    rw [loadSource, loadFactor, hfirst]
    exact bind_of_ok (f := fun _ => pure [name]) hadd
  have hprepare : prepare engine { selecting [.wildcard] with quantifier := some .distinct } c =
      .ok ⟨⟩ c := rfl
  obtain ⟨d, hall⟩ := runIn_eq_ok.mp (@selectAll_wildcard engine _ _ _ hcomplete' hadd)
  have hsame := @distinctRows_eq engine _ hcomplete'
  rw [hagain.distinct_eq] at hsame
  rw [execute_of_prepared hload hprepare, select.eq_def]
  dsimp only [selecting]
  rw [runIn_bind_of_ok hall, runIn_lift, hsame]

/-- Rows that come up more than once, and not next to one another. -/
def scattered : View := ⟨["x"], #[.ofList [("x", .ofNat 1)], .ofList [("x", .null)],
  .ofList [("x", .ofNat 1)], .ofList [("x", .null)], .ofList [("x", .ofNat 2)]]⟩

theorem execute_distinct_scattered : execute .builtin (.ofList [("t", scattered)])
    (.select (.factor (.table "t" none))
      { selecting [.expr (.field "x")] with quantifier := some .distinct, limit := some ⟨1, some 5⟩ }) =
        .ok ⟨["x"], #[.ofList [("x", .null)], .ofList [("x", .ofNat 2)]]⟩ := by
  have hall : execute .builtin (.ofList [("t", scattered)]) (.select (.factor (.table "t" none))
      { selecting [.expr (.field "x")] with quantifier := none, limit := none }) = .ok scattered := rfl
  obtain ⟨hdistinct, -, -⟩ := execute_distinct rfl hall (some ⟨1, some 5⟩)
  exact hdistinct

end Statement

end TableQuery
