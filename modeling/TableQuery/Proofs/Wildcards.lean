/-
All columns of all views.

A star is written out as the fields of every view, one after the other. Fields that several views declare
are read with the alias of their view, and have it in their names. So nothing is lost: every field of
every view has a column of its own, with the values that it has in the view. But the names need not
differ, for a field may have a name that looks like another one with an alias; then the query fails.

* `Frame.columns`, `Frame.columnName` — the fields of all views, and what they are called in a result;
* `Context.columnName_columnExpr` — the expressions of a star have these names;
* `Step.reads_columnExpr` — and the values of the fields;
* `Step.select_wildcard` — the result of a star.
-/
import TableQuery.Proofs.Projection
import TableQuery.Proofs.SelectedKeys

namespace TableQuery

/-! ### Columns -/

namespace Frame

/-- The fields of all views with the aliases of these, view by view. -/
def columns (f : Frame) : List FieldOwner :=
  f.views.flatMap fun (table, v) => v.fields.map (FieldOwner.mk table)

/-- The name of a column is that of its field, with the alias of the view in front if another view
declares the field too. -/
def columnName (f : Frame) (o : FieldOwner) : String :=
  if f.views.any fun p => p.1 != o.table && p.2.declares o.name then o.table ++ "." ++ o.name else o.name

variable {f : Frame} {o : FieldOwner}

theorem mem_columns : o ∈ f.columns ↔ f.Declares o.table o.name := by
  rw [columns, List.mem_flatMap, Declares]
  constructor
  · rintro ⟨⟨table, v⟩, hv, ho⟩
    obtain ⟨name, hname, rfl⟩ := List.mem_map.mp ho
    exact ⟨v, hv, List.contains_iff_mem.mpr hname⟩
  · rintro ⟨v, hv, hname⟩
    exact ⟨(o.table, v), hv, List.mem_map.mpr ⟨o.name, List.contains_iff_mem.mp hname, rfl⟩⟩

/-- No field of a view comes up twice. -/
theorem nodup_columns (haliases : (f.views.map Prod.fst).Nodup)
    (hfields : ∀ p ∈ f.views, p.2.fields.Nodup) : f.columns.Nodup := by
  refine List.nodup_flatMap.mpr ⟨fun p hp => ?_, ?_⟩
  · exact (hfields p hp).map fun _ _ h => (FieldOwner.mk.inj h).2
  · refine (List.pairwise_map.mp haliases).imp fun hne o ho ho' => hne ?_
    obtain ⟨_, -, rfl⟩ := List.mem_map.mp ho
    obtain ⟨_, -, h⟩ := List.mem_map.mp ho'
    exact (FieldOwner.mk.inj h).1.symm

/-- Another view declares the field of a column if another column is one of a field of that name. -/
theorem any_declares_iff : (f.views.any fun p => p.1 != o.table && p.2.declares o.name) = true ↔
    ∃ o' ∈ f.columns, o'.name = o.name ∧ o' ≠ o := by
  rw [List.any_eq_true]
  constructor
  · rintro ⟨⟨table, v⟩, hv, h⟩
    obtain ⟨hne, hdeclares⟩ := Bool.and_eq_true_iff.mp h
    exact ⟨⟨table, o.name⟩, mem_columns.mpr ⟨v, hv, hdeclares⟩, rfl,
      fun ho => bne_iff_ne.mp hne (congrArg FieldOwner.table ho)⟩
  · rintro ⟨⟨table, name⟩, ho', rfl, hne⟩
    obtain ⟨v, hv, hdeclares⟩ := mem_columns.mp ho'
    have htable : table ≠ o.table := fun htable => hne (htable ▸ rfl)
    exact ⟨(table, v), hv, Bool.and_eq_true_iff.mpr ⟨bne_iff_ne.mpr htable, hdeclares⟩⟩

end Frame

/-- In a list without repetitions an item shares its image with no other if the image comes up once. -/
theorem count_map_eq_one_iff {α β : Type} [BEq β] [LawfulBEq β] {f : α → β} {l : List α}
    (h : l.Nodup) {a : α} (ha : a ∈ l) :
    (l.map f).count (f a) = 1 ↔ ∀ b ∈ l, f b = f a → b = a := by
  obtain ⟨s, t, rfl⟩ := List.append_of_mem ha
  have hcount : ((s ++ a :: t).map f).count (f a) = ((s ++ t).map f).count (f a) + 1 := by
    simp only [List.map_append, List.map_cons, List.count_append, List.count_cons_self]
    omega
  have hnot : a ∉ s ++ t := (List.nodup_middle.mp h).notMem
  rw [hcount, Nat.add_eq_right, List.count_eq_zero, List.mem_map, not_exists]
  constructor
  · intro hnone b hb hfb
    obtain hb | rfl | hb : b ∈ s ∨ b = a ∨ b ∈ t := by simpa using hb
    · exact absurd ⟨List.mem_append_left t hb, hfb⟩ (hnone b)
    · rfl
    · exact absurd ⟨List.mem_append_right s hb, hfb⟩ (hnone b)
  · rintro hone b ⟨hb, hfb⟩
    have hb' : b ∈ s ++ a :: t := by
      rcases List.mem_append.mp hb with hb | hb
      · exact List.mem_append_left _ hb
      · exact List.mem_append_right _ (List.mem_cons_of_mem a hb)
    exact hnot (hone b hb' hfb ▸ hb)

namespace Context

/-- The expression that stands for a column. -/
def columnExpr (c : Context) (o : FieldOwner) : Expr :=
  if c.direct.get? o.name = some o.table then .field o.name else .qualified o.table o.name

/-- A field that is resolved to a view is declared by no other. -/
def ResolvesAlone (c : Context) : Prop :=
  ∀ field table, c.direct.get? field = some table → ∀ t, c.frame.Declares t field → t = table

theorem Resolved.resolvesAlone {c : Context} (h : c.Resolved) : c.ResolvesAlone :=
  fun field table hfield t => ((h.direct field table).mp hfield t).mp

variable {c : Context} {o : FieldOwner}

theorem columnExpr_cases (c : Context) (o : FieldOwner) :
    c.direct.get? o.name = some o.table ∧ c.columnExpr o = .field o.name ∨
      c.direct.get? o.name ≠ some o.table ∧ c.columnExpr o = .qualified o.table o.name := by
  rw [columnExpr]
  split
  · next hdirect => exact .inl ⟨hdirect, rfl⟩
  · next hdirect => exact .inr ⟨hdirect, rfl⟩

theorem itemExprs_wildcard (c : Context) : ([SelectItem.wildcard].mapM c.itemExprs).map List.flatten =
    .ok (c.frame.columns.map c.columnExpr) := by
  have hcolumns : ∀ p : String × View, c.viewColumns p.1 p.2 =
      (p.2.fields.map (FieldOwner.mk p.1)).map c.columnExpr := by
    intro p
    rw [viewColumns, List.map_map]
    rfl
  have hitem : c.itemExprs .wildcard = .ok (c.frame.columns.map c.columnExpr) := by
    rw [itemExprs, Frame.columns, List.map_flatMap]
    exact congrArg (fun g => Except.ok (List.flatMap g c.frame.views)) (funext hcolumns)
  rw [List.mapM_cons, hitem]
  simp [Except.map]

theorem bareName_columnExpr (c : Context) (o : FieldOwner) : (c.columnExpr o).bareName = o.name := by
  obtain ⟨-, he⟩ | ⟨-, he⟩ := c.columnExpr_cases o <;> rw [he] <;> rfl

theorem window?_columnExpr (c : Context) (o : FieldOwner) : (c.columnExpr o).window? = none := by
  obtain ⟨-, he⟩ | ⟨-, he⟩ := c.columnExpr_cases o <;> rw [he] <;> rfl

theorem aggregateFree_columnExpr (r : Registry) (c : Context) (o : FieldOwner) :
    (c.columnExpr o).AggregateFree r := by
  obtain ⟨-, he⟩ | ⟨-, he⟩ := c.columnExpr_cases o <;> rw [he]
  · exact .of_field r _
  · exact .of_qualified r _ _

/-- The expression of a column is named as the column. -/
theorem columnName_columnExpr (halone : c.ResolvesAlone) (hnodup : c.frame.columns.Nodup)
    (ho : o ∈ c.frame.columns) :
    (c.columnExpr o).columnName (c.frame.columns.map c.columnExpr) = c.frame.columnName o := by
  have hbare : (c.frame.columns.map c.columnExpr).map Expr.bareName =
      c.frame.columns.map FieldOwner.name := by
    rw [List.map_map]
    exact List.map_congr_left fun o _ => c.bareName_columnExpr o
  rw [Expr.columnName, hbare, bareName_columnExpr, Frame.columnName]
  by_cases hshared : ∃ o' ∈ c.frame.columns, o'.name = o.name ∧ o' ≠ o
  · rw [if_pos (Frame.any_declares_iff.mpr hshared)]
    obtain ⟨o', ho', hname, hne⟩ := hshared
    rw [if_neg fun hcount => hne ((count_map_eq_one_iff hnodup ho).mp hcount o' ho' hname)]
    -- the field is not resolved to the view, for the other one declares it
    obtain ⟨hdirect, -⟩ | ⟨-, he⟩ := c.columnExpr_cases o
    · have htable : o'.table = o.table :=
        halone o.name o.table hdirect o'.table (hname ▸ Frame.mem_columns.mp ho')
      refine absurd ?_ hne
      cases o
      cases o'
      cases htable
      cases hname
      rfl
    · rw [he]
      rfl
  · rw [if_neg fun hany => hshared (Frame.any_declares_iff.mp hany)]
    refine if_pos ((count_map_eq_one_iff hnodup ho).mpr fun o' ho' hname => ?_)
    exact by_contra fun hne => hshared ⟨o', ho', hname, hne⟩

/-- A star names its columns, if the names differ. -/
theorem columnNames_columns (halone : c.ResolvesAlone) (hnodup : c.frame.columns.Nodup) :
    columnNames (c.frame.columns.map c.columnExpr) =
      match duplicateLabel? [] (c.frame.columns.map c.frame.columnName) with
      | some name => .error (.duplicateColumn name)
      | none => .ok (c.frame.columns.map c.frame.columnName) := by
  have hnames : (c.frame.columns.map c.columnExpr).map
      (Expr.columnName (c.frame.columns.map c.columnExpr)) = c.frame.columns.map c.frame.columnName := by
    rw [List.map_map]
    exact List.map_congr_left fun o ho => columnName_columnExpr halone hnodup ho
  cases hduplicate : duplicateLabel? [] (c.frame.columns.map c.frame.columnName) with
  | none => simp only [columnNames, hnames, hduplicate]
  | some name => simp only [columnNames, hnames, hduplicate]

end Context

/-- A label that was found twice is among those seen before and again, or again and again. -/
theorem of_duplicateLabel?_eq_some {seen labels : List String} {label : String}
    (h : duplicateLabel? seen labels = some label) :
    label ∈ seen ∧ label ∈ labels ∨ 2 ≤ labels.count label := by
  induction labels generalizing seen with
  | nil => cases h
  | cons l labels ih =>
    rw [duplicateLabel?] at h
    split at h
    · next hseen =>
      cases h
      exact .inl ⟨List.contains_iff_mem.mp hseen, List.mem_cons_self⟩
    · rcases ih h with ⟨hseen, hlabel⟩ | hcount
      · rcases List.mem_cons.mp hseen with rfl | hseen
        · refine .inr ?_
          rw [List.count_cons_self]
          exact Nat.succ_le_succ (List.count_pos_iff.mpr hlabel)
        · exact .inl ⟨hseen, List.mem_cons_of_mem l hlabel⟩
      · exact .inr (hcount.trans List.count_le_count_cons)

namespace Step

variable {engine : Engine} {c : Context} {names : List String} {o : FieldOwner}

open Context

/-! ### Rows -/

/-- The expression of a column gives what the column holds. -/
theorem reads_columnExpr (haliases : (c.frame.views.map Prod.fst).Nodup) (ho : o ∈ c.frame.columns)
    (i : Nat) : c.Reads engine (c.columnExpr o) i (c.cell o i) := by
  obtain ⟨v, hv, hdeclares⟩ := Frame.mem_columns.mp ho
  obtain ⟨hdirect, he⟩ | ⟨-, he⟩ := c.columnExpr_cases o <;> rw [he]
  · exact reads_of_direct rfl hdirect i
  · exact reads_of_declares rfl (Frame.view?_of_mem haliases hv) hdeclares i

theorem repeats_columnExpr {A : Expr → Prop} {b : Bool} {i : Nat} {start : Context} (o : FieldOwner) :
    Repeats engine A b i start (((c.columnExpr o).evaluator engine).value engine i b) := by
  obtain ⟨-, he⟩ | ⟨-, he⟩ := c.columnExpr_cases o <;> rw [he]
  · rw [Expr.value_of_body_field engine rfl]
    exact repeats_readField _
  · rw [Expr.value_of_body_qualified engine rfl]
    exact repeats_readQualified _ _

/-- What is selected in a row are the cells of all columns. -/
theorem selectedRow_columns (engine : Engine) (haliases : (c.frame.views.map Prod.fst).Nodup)
    (names : List String) (i : Nat) :
    (selectedRow engine (c.frame.columns.map c.columnExpr) names i).runIn c =
      .ok (.ofList (names.zip (c.frame.columns.map (c.cell · i)))) := by
  have hrepeats : ∀ e ∈ c.frame.columns.map c.columnExpr,
      Repeats engine (fun _ => False) false i c ((e.evaluator engine).value engine i false) := by
    intro e he
    obtain ⟨o, -, rfl⟩ := List.mem_map.mp he
    exact repeats_columnExpr o
  have hvalues : (c.frame.columns.map c.columnExpr).mapM
      (fun e => ((e.evaluator engine).value engine i false).runIn c) =
      .ok (c.frame.columns.map (c.cell · i)) := by
    rw [List.mapM_map]
    exact mapM_eq_ok fun o ho => runIn_eq_ok.mpr ⟨_, reads_columnExpr haliases ho i c.sawPlainColumn⟩
  rw [selectedRow, runIn_bind_pure, Repeats.runIn_values .initial hrepeats, hvalues]
  rfl

/-- All columns are selected in every row. -/
theorem project_columns (engine : Engine) (haliases : (c.frame.views.map Prod.fst).Nodup)
    (hempty : c.sourceEmpty = false) (hagg : c.size = 0 → c.aggregated = false) (names : List String) :
    (project engine (c.frame.columns.map c.columnExpr) names).runIn c =
      .ok ⟨names, ((List.range c.size).map fun i =>
        Labelled.ofList (names.zip (c.frame.columns.map (c.cell · i)))).toArray⟩ := by
  have hfree : ∀ e ∈ c.frame.columns.map c.columnExpr, e.AggregateFree engine.functions := by
    intro e he
    obtain ⟨o, -, rfl⟩ := List.mem_map.mp he
    exact aggregateFree_columnExpr engine.functions c o
  by_cases hsize : c.size = 0
  · have hviews : (standIn c).frame.views =
        c.frame.views.map fun p => (p.1, ⟨p.2.fields, #[p.2.nullRow]⟩) := rfl
    have haliases' : ((standIn c).frame.views.map Prod.fst).Nodup := by
      rwa [hviews, List.map_map]
    have hcolumns : (standIn c).frame.columns = c.frame.columns := by
      rw [Frame.columns, hviews, List.flatMap_map]
      rfl
    have hrow := selectedRow_columns engine haliases' names 0
    rw [hcolumns] at hrow
    rw [project_of_standIn hsize (hagg hsize) hfree hrow, hsize]
    rfl
  · exact project_of_rows hsize hempty (fun _ _ => .inr hfree) fun i _ =>
      selectedRow_columns engine haliases names i

/-- Under the name of a column stands what its field holds, if the names differ. -/
theorem get?_selected (haliases : (c.frame.views.map Prod.fst).Nodup)
    (hnodup : (c.frame.columns.map c.frame.columnName).Nodup) {table field : String} {v : View}
    (hv : (table, v) ∈ c.frame.views) (hfield : field ∈ v.fields) (i : Nat) :
    (Labelled.ofList ((c.frame.columns.map c.frame.columnName).zip
      (c.frame.columns.map (c.cell · i)))).get? (c.frame.columnName ⟨table, field⟩) =
      some (v.value i field) := by
  have ho : ⟨table, field⟩ ∈ c.frame.columns :=
    Frame.mem_columns.mpr ⟨v, hv, List.contains_iff_mem.mpr hfield⟩
  obtain ⟨k, hk⟩ := List.mem_iff_getElem?.mp ho
  have hcell : c.cell ⟨table, field⟩ i = v.value i field := by
    rw [cell, Frame.view?_of_mem haliases hv]
    rfl
  refine Labelled.get?_zip hnodup (k := k) ?_ ?_
  · rw [List.getElem?_map, hk, Option.map_some]
  · rw [List.getElem?_map, hk, Option.map_some, hcell]

/-! ### Results -/

/-- Without names for its columns nothing is selected. -/
theorem runIn_selectAll_of_error {items : List SelectItem} {exprs : List Expr} {e : ExecutionError}
    (hexprs : (items.mapM c.itemExprs).map List.flatten = .ok exprs)
    (hnames : columnNames exprs = .error e) (order : List OrderItem) (bounds : Option Limit) :
    (selectAll engine items order bounds).runIn c = .error e := by
  have hget : (get : Step Context) c = .ok c c := rfl
  have hlift : lift (.ok exprs) c = .ok exprs c := rfl
  rw [selectAll, runIn_bind_of_ok hget, hexprs, runIn_bind_of_ok hlift, hnames]
  exact runIn_bind_of_error (d := c) rfl

/-- A star gives every column of every view in every row, with the value that it has in the view. It fails
only when two columns have one name. -/
theorem select_wildcard (engine : Engine) (halone : c.ResolvesAlone)
    (haliases : (c.frame.views.map Prod.fst).Nodup)
    (hfields : ∀ p ∈ c.frame.views, p.2.fields.Nodup) (hempty : c.sourceEmpty = false)
    (hagg : c.size = 0 → c.aggregated = false) :
    let names := c.frame.columns.map c.frame.columnName
    (∃ v, (select engine [.wildcard] none [] none).runIn c = .ok v ∧ v.fields = names ∧ v.Complete ∧
      v.size = c.size ∧ ∀ i < c.size, ∀ table w field, (table, w) ∈ c.frame.views →
        field ∈ w.fields → v.value i (c.frame.columnName ⟨table, field⟩) = w.value i field) ∨
    ∃ name, 2 ≤ names.count name ∧
      (select engine [.wildcard] none [] none).runIn c = .error (.duplicateColumn name) := by
  intro names
  have hcolumnNames := columnNames_columns halone (Frame.nodup_columns haliases hfields)
  cases hduplicate : duplicateLabel? [] names with
  | some name =>
    rw [hduplicate] at hcolumnNames
    refine .inr ⟨name, ?_, runIn_selectAll_of_error c.itemExprs_wildcard hcolumnNames [] none⟩
    exact (of_duplicateLabel?_eq_some hduplicate).resolve_left fun h => List.not_mem_nil h.1
  | none =>
    rw [hduplicate] at hcolumnNames
    have hwindows : ∀ e ∈ c.frame.columns.map c.columnExpr, e.window? = none := by
      intro e he
      obtain ⟨o, -, rfl⟩ := List.mem_map.mp he
      exact c.window?_columnExpr o
    have hselect := (runIn_selectAll c.itemExprs_wildcard hcolumnNames hwindows).trans
      (project_columns engine haliases hempty hagg names)
    obtain ⟨d, hd⟩ := runIn_eq_ok.mp hselect
    refine .inl ⟨_, hselect, rfl, complete_selectAll [.wildcard] [] none trivial hd, by simp [View.size],
      fun i hi table w field hw hfield => ?_⟩
    have hnodup : names.Nodup := (duplicateLabel?_eq_none.mp hduplicate).1
    have hget := get?_selected haliases hnodup hw hfield i
    generalize w.value i field = u at hget ⊢
    simp [View.value, hi, names, hget]

/-- A context to which views were added. -/
def withViews (views : List (String × View)) : Context :=
  views.foldl (fun c p => c.after .builtin (.addView p.1 p.2)) {}

theorem resolved_withViews (views : List (String × View)) : (withViews views).Resolved := by
  have hnamed : ∀ c : Context, c.Named →
      (views.foldl (fun c p => c.after .builtin (.addView p.1 p.2)) c).Named := by
    induction views with
    | nil => exact fun c hc => hc
    | cons p views ih => exact fun c hc => ih _ (hc.after trivial)
  have h := hnamed {} Context.named_empty
  exact h.tracks.resolved h.nodup

/-- Two views that share a field, and a field that looks like one of the other view. -/
def sharedField : Context := withViews
  [("a", ⟨["x", "y"], #[.ofList [("x", .ofNat 1), ("y", .ofNat 2)]]⟩),
    ("b", ⟨["x", "a.y"], #[.ofList [("x", .null), ("a.y", .ofNat 4)]]⟩)]

theorem select_wildcard_sharedField : ∃ v,
    (select .builtin [.wildcard] none [] none).runIn sharedField = .ok v ∧
      v.fields = ["a.x", "y", "b.x", "a.y"] ∧ v.Complete ∧ v.size = 1 := by
  have hresolved : sharedField.Resolved := resolved_withViews _
  have hnames : sharedField.frame.columns.map sharedField.frame.columnName =
      ["a.x", "y", "b.x", "a.y"] := by decide +kernel
  have hsize : sharedField.size = 1 := by decide +kernel
  obtain ⟨v, hv, hfields, hcomplete, hsame, -⟩ | ⟨name, hcount, -⟩ :=
    select_wildcard .builtin hresolved.resolvesAlone hresolved.nodup (by decide +kernel) rfl
      fun _ => rfl
  · exact ⟨v, hv, hfields.trans hnames, hcomplete, hsame.trans hsize⟩
  · rw [hnames] at hcount
    have hnodup : ["a.x", "y", "b.x", "a.y"].Nodup := by decide
    exact absurd (List.nodup_iff_count_le_one.mp hnodup name) (Nat.not_le.mpr hcount)

/-- A field may be named as another one with its alias. -/
theorem not_forall_select_wildcard : ¬ ∀ c : Context, c.Resolved →
    (∀ p ∈ c.frame.views, p.2.fields.Nodup) → c.grouped = false → c.sourceEmpty = false →
    c.aggregated = false → ∃ v, (select .builtin [.wildcard] none [] none).runIn c = .ok v := by
  intro h
  let c := withViews [("a", ⟨["x"], #[.ofList [("x", .ofNat 1)]]⟩),
    ("b", ⟨["x"], #[.ofList [("x", .ofNat 2)]]⟩), ("c", ⟨["a.x"], #[.ofList [("a.x", .ofNat 3)]]⟩)]
  have hresolved : c.Resolved := resolved_withViews _
  obtain ⟨v, hv⟩ := h c hresolved (by decide +kernel) rfl rfl rfl
  have hfailed : ((select .builtin [.wildcard] none [] none).runIn c).toOption.isSome = false := by
    decide +kernel
  rw [hv] at hfailed
  cases hfailed

end Step

end TableQuery
