/-
Views in which no cell is missing.

The rows of a table may lack cells that are declared, but the rows of a result do not: each holds a cell for
every column, in the order of the columns, and columns have different names. So a row of a result is known
when its cells are, and a query that reads all of its columns again gives the very same row.

* `Labelled.entries_ofList` — what is put under different labels stays as it was put;
* `View.Complete` — every row has just the cells that are declared;
* `View.Complete.row_eq` — such a row is made up of its cells;
* `Statement.complete_execute` — results are complete.
-/
import TableQuery.Proofs.SelectedGroups

namespace TableQuery

namespace Labelled

variable {α : Type}

/-- Values under different labels stay in the order in which they are put. -/
theorem entries_ofList {entries : List (String × α)} (h : (entries.map Prod.fst).Nodup) :
    (ofList entries).entries = entries := by
  induction entries using List.reverseRecOn with
  | nil => rfl
  | append_singleton entries e ih =>
    rw [List.map_append, List.nodup_append] at h
    obtain ⟨hnodup, -, hnew⟩ := h
    rw [ofList_concat]
    show (ofList entries).entries.filter _ ++ [e] = _
    rw [ih hnodup, List.filter_eq_self.mpr fun e' he' => ?_]
    exact bne_iff_ne.mpr (hnew _ (List.mem_map_of_mem he') _ (by simp))

theorem labels_ofList {entries : List (String × α)} (h : (entries.map Prod.fst).Nodup) :
    (ofList entries).labels = entries.map Prod.fst := by
  rw [labels, entries_ofList h]

/-- What stands under labels is known when the labels are and what each of them holds. -/
theorem ofList_labels (m : Labelled α) (a : α) :
    ofList (m.labels.map fun label => (label, (m.get? label).getD a)) = m := by
  have hentries : m.labels.map (fun label => (label, (m.get? label).getD a)) = m.entries := by
    rw [labels, List.map_map]
    refine (List.map_congr_left fun e he => ?_).trans (List.map_id _)
    have hget : m.get? e.1 = some e.2 := by
      obtain ⟨before, after, hsplit⟩ := List.append_of_mem he
      refine List.lookup_eq_some_iff.mpr ⟨before, after, hsplit, fun e' he' => ?_⟩
      have hnodup := m.nodup
      rw [hsplit, List.map_append, List.map_cons, List.nodup_append] at hnodup
      simpa using Ne.symm (hnodup.2.2 e'.1 (List.mem_map_of_mem he') e.1 List.mem_cons_self)
    show (e.1, (m.get? e.1).getD a) = e
    rw [hget]
    rfl
  rw [hentries]
  have hofList := entries_ofList m.nodup
  cases m
  cases h : ofList _
  rw [h] at hofList
  cases hofList
  rfl

end Labelled

namespace View

/-- The cells of a row, column by column. -/
def cells (v : View) (i : Nat) : List Value := v.fields.map (v.value i)

/-- The fields are different, and every row has a cell for each of them, in their order. -/
structure Complete (v : View) : Prop where
  nodup : v.fields.Nodup
  labels : ∀ row ∈ v.rows, row.labels = v.fields

namespace Complete

variable {v : View}

/-- A row holds its cells, and nothing else. -/
theorem row_eq (h : v.Complete) {i : Nat} {row : Row} (hrow : v.rows[i]? = some row) :
    Labelled.ofList (v.fields.zip (v.cells i)) = row := by
  have hvalue : v.value i = fun name => (row.get? name).getD .null := by
    funext name
    rw [value, hrow]
    rfl
  have hofList := row.ofList_labels .null
  rw [h.labels row (Array.mem_of_getElem? hrow)] at hofList
  rw [cells, hvalue, ← List.map_prod_left_eq_zip, hofList]

/-- The rows at given places are made up of their cells. -/
theorem take_eq (h : v.Complete) {places : List Nat} (hplaces : ∀ i ∈ places, i < v.size) :
    v.take places =
      ⟨v.fields, (places.map fun i => Labelled.ofList (v.fields.zip (v.cells i))).toArray⟩ := by
  have hrows : places.filterMap (v.rows[·]?) =
      places.map fun i => Labelled.ofList (v.fields.zip (v.cells i)) := by
    refine List.filterMap_eq_map_iff_forall_eq_some.mpr fun i hi => ?_
    have hlt : i < v.rows.size := hplaces i hi
    rw [Array.getElem?_eq_getElem hlt, h.row_eq (Array.getElem?_eq_getElem hlt)]
  rw [take, hrows]

theorem take (h : v.Complete) (places : List Nat) : (v.take places).Complete where
  nodup := h.nodup
  labels row hrow := by
    obtain ⟨i, -, hi⟩ := List.mem_filterMap.mp (List.mem_toArray.mp hrow)
    exact h.labels row (Array.mem_of_getElem? hi)

end Complete

end View

/-! ### Results -/

/-- The names of columns are different, and as many as the columns. -/
theorem of_columnNames {exprs : List Expr} {names : List String} (h : columnNames exprs = .ok names) :
    names.Nodup ∧ names.length = exprs.length := by
  rw [columnNames] at h
  split at h
  · cases h
  · next hnone =>
    cases h
    exact ⟨(duplicateLabel?_eq_none.mp hnone).1, List.length_map _⟩

namespace Step

variable {engine : Engine}

/-- What holds of the result of an action in any row holds of all results of a loop. -/
theorem forall_rows {α : Type} {V : α → Prop} {action : Nat → Step α}
    (h : ∀ i, Ensures (fun _ => True) (action i) fun a _ => V a) :
    Ensures (fun _ => True) (rows action) fun as _ => ∀ a ∈ as, V a := by
  have hafter : ∀ n (done : Array α), (∀ a ∈ done, V a) →
      Ensures (fun _ => True) (rowsAfter action done n) fun as _ => ∀ a ∈ as, V a := by
    intro n
    induction n with
    | zero => exact fun done hdone => .pure _ fun _ _ => hdone
    | succ n ih =>
      intro done hdone
      rw [rowsAfter]
      refine .get_bind fun c _ => .ite (fun _ => ?_) fun _ => .pure _ fun _ _ => hdone
      intro c' as d _ hd
      obtain ⟨a, e, ha, hd⟩ := exists_of_bind_eq_ok hd
      refine ih (done.push a) (fun b hb => ?_) trivial hd
      rcases Array.mem_push.mp hb with hb | rfl
      · exact hdone b hb
      · exact h done.size trivial ha
  rw [rows]
  exact .get_bind fun c _ => (hafter c.size #[] fun a ha => by simp at ha).mono (fun _ _ => trivial)
    fun _ _ h => h

theorem complete_project {exprs : List Expr} {names : List String} (hnodup : names.Nodup)
    (hlength : names.length = exprs.length) :
    Ensures (fun _ => True) (project engine exprs names) fun v _ => v.Complete := by
  -- every row that is selected has a value for each name
  have hrow : ∀ i, Ensures (fun _ => True) (selectedRow engine exprs names i)
      fun row _ => row.labels = names := by
    intro i c row d hc h
    obtain ⟨values, e, hvalues, hd⟩ := exists_of_bind_eq_ok h
    cases hd
    have hsame : values.length = exprs.length := by
      rw [length_values _ i false hc hvalues, Expr.evaluators_eq_map, List.length_map]
    have hzip : (names.zip values).map Prod.fst = names :=
      List.map_fst_zip (Nat.le_of_eq (hlength.trans hsame.symm))
    rw [Labelled.labels_ofList (by rwa [hzip]), hzip]
  have hrows : Ensures (fun _ => True) (do
      let found ← rows fun i => do
        let values ← Evaluator.values engine (Expr.evaluators engine exprs) i false
        return Labelled.ofList (names.zip values)
      let c ← get
      reset
      return (⟨names, if c.sourceEmpty && !c.aggregated then #[] else found⟩ : View))
      fun v _ => v.Complete := by
    refine (forall_rows hrow).bind fun found => .get_bind fun c hfound => ?_
    intro d v e hd hv
    subst hd
    cases hv
    refine ⟨hnodup, fun row h => ?_⟩
    dsimp only at h
    split at h
    · simp at h
    · exact hfound row h
  rw [project]
  refine .get_bind fun c _ => .ite (fun _ => ?_) fun _ => .ite (fun _ => ?_) fun _ => ?_
  · refine (Ensures.trivial _).bind fun _ => .pure _ fun _ _ => ⟨hnodup, fun row h => ?_⟩
    simp [View.empty] at h
  · exact (Ensures.trivial _).bind fun _ => hrows
  · exact hrows.mono (fun _ _ => trivial) fun _ _ h => h

/-- Whatever is selected is complete. -/
theorem complete_selectAll (items : List SelectItem) (order : List OrderItem) (bounds : Option Limit) :
    Ensures (fun _ => True) (selectAll engine items order bounds) fun v _ => v.Complete := by
  intro c v d _ h
  rw [selectAll_eq] at h
  obtain ⟨⟨exprs, names⟩, c', hordered, h⟩ := exists_of_bind_eq_ok h
  obtain ⟨hnodup, hlength⟩ := of_columnNames (ordered_eq_ok.mp hordered).2.1
  obtain ⟨⟨⟩, c'', -, h⟩ := exists_of_bind_eq_ok h
  exact complete_project hnodup hlength trivial h

end Step

/-- The result of a query has a cell for every column in every row. -/
theorem Statement.complete_execute {engine : Engine} {tables : Tables} {q : Statement} {v : View}
    (h : q.execute engine tables = .ok v) : v.Complete := by
  obtain ⟨source, clauses⟩ := q
  obtain ⟨_, _, p, d, -, -, hselect⟩ := exists_of_execute_eq_ok h
  rw [Step.select.eq_def] at hselect
  rcases hquantifier : clauses.quantifier with _ | _ | _
  all_goals rw [hquantifier] at hselect
  · exact Step.complete_selectAll _ _ _ trivial hselect
  · -- distinct rows are selected from those of a view, in a context of their own
    obtain ⟨w, c, -, hdistinct⟩ := Step.exists_of_bind_eq_ok hselect
    obtain ⟨hdistinct, -⟩ := Step.lift_eq_ok hdistinct
    rw [Step.distinctRows] at hdistinct
    obtain ⟨e, hdistinct⟩ := Step.runIn_eq_ok.mp hdistinct
    obtain ⟨_, _, -, hdistinct⟩ := Step.exists_of_bind_eq_ok hdistinct
    obtain ⟨_, _, -, hdistinct⟩ := Step.exists_of_bind_eq_ok hdistinct
    exact Step.complete_selectAll _ _ _ trivial hdistinct
  · cases hselect

end TableQuery
