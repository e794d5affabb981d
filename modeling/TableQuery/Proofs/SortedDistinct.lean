/-
Distinct rows in order.

Distinct rows are put in order when duplicates are gone, by keys that are computed from their columns alone.
Where keys are selected and computed from selected columns, they are the same there as they were in the rows
of the source. Then it makes no difference whether rows are sorted before duplicates are removed or
afterwards: the order is stable, and duplicates have the same keys.

* `Step.distinctRows_of_keyed` — the distinct rows of a view, sorted by keys that are in its columns;
* `Step.reliable_prepare` — rows that can be trusted when all is ready to be selected;
* `Statement.SortsBySelected` — queries that are sorted by selected keys;
* `Statement.execute_distinct_sorted` — removing duplicates keeps the order of the result;
* `Statement.not_forall_execute_distinct_sorted` — keys that are not computed from selected columns.
-/
import TableQuery.Proofs.TrustedRows

namespace TableQuery

theorem Expr.Over.mono {r : Registry} {fields others : List String} {e : Expr} (h : e.Over r fields)
    (hsub : ∀ name ∈ fields, name ∈ others) : e.Over r others := by
  induction h with
  | field hname => exact .field (hsub _ hname)
  | composed hcomposed _ ih => exact .composed hcomposed ih
  | call hcallee hnot _ ih => exact .call hcallee hnot ih

/-- Labels tell keys apart from what is evaluated for another expression if they tell apart all of this. -/
theorem Expr.Clear.of_apart {A parts : Expr → Prop} (hA : Expr.LabelsApart A) (hparts : ∀ r, parts r → A r)
    {e : Expr} (he : ∀ q : Expr, q.Within e → A q) : e.Clear parts :=
  fun q hq hremembered r hr hremembered' hlabel =>
    hA (he q hq) (hparts r hr) hremembered hremembered' hlabel ▸ hr

theorem Expr.Family.keyPart {order : List OrderItem} (h : Expr.LabelsApart (Expr.KeyPart order)) :
    Expr.Family (Expr.KeyPart order) where
  operand := fun ⟨item, hitem, he⟩ hp => ⟨item, hitem, (Expr.Within.operand hp (.self _)).trans he⟩
  eq_of_label he he' := h he he'

/-- Places may be looked up before they are sorted or afterwards. -/
theorem map_sortPlaces (directions : List Direction) (key : Nat → List Value) (f : Nat → Nat)
    (places : List Nat) :
    (sortPlaces directions (fun k => key (f k)) places).map f =
      sortPlaces directions key (places.map f) :=
  List.map_mergeSort fun _ _ _ _ => rfl

/-! ### Distinct rows -/

namespace Context.Displays

variable {c : Context} {table : String} {v : View} {places : List Nat}

theorem finds (h : c.Displays table v places) : c.Finds v.fields :=
  fun name hname => ⟨table, h.direct name hname⟩

/-- The row of a view shows its own cells. -/
theorem shows (h : c.Displays table v places) (hv : v.Complete) {k i : Nat} {row : Row}
    (hk : places[k]? = some i) (hrow : v.rows[i]? = some row) : c.Shows v.fields row k := by
  intro name hname
  obtain ⟨m, hm⟩ := List.mem_iff_getElem?.mp hname
  refine ⟨v.value i name, ?_, fun owner howner => ?_⟩
  · rw [← hv.row_eq hrow]
    exact Labelled.get?_zip hv.nodup hm (by rw [View.cells, List.getElem?_map, hm]; rfl)
  · obtain rfl : owner = table := Option.some.inj (howner.symm.trans (h.direct name hname))
    exact h.cell hk name hname

end Context.Displays

namespace Step

open Context

variable {engine : Engine} {v : View} {order : List OrderItem}

/-- The rows of a view that are displayed are sorted by its keys. -/
theorem selectAll_of_displays {d : Context} {table : String} {places : List Nat} (hv : v.Complete)
    (hd : d.Displays table v places) (hplaces : ∀ i ∈ places, i < v.size) (hgrouped : d.Grouped)
    (hsize : d.size ≠ 0) (hnone : ∀ k label, d.remembered? engine k label = none)
    (hkeyed : v.Keyed engine order) (hover : ∀ item ∈ order, item.expr.Over engine.functions v.fields)
    (hfamily : Expr.Family (Expr.KeyPart order)) :
    (selectAll engine ((v.fields.map Expr.field).map .expr) order none).runIn d =
      .ok (v.take (sortPlaces (order.map OrderItem.direction) (v.key engine order) places)) := by
  have hl := itemExprs_of_exprs d (v.fields.map Expr.field)
  have hflat := flatten_map_singleton (v.fields.map Expr.field)
  generalize (v.fields.map Expr.field).map (fun e => [e]) = l at hl hflat
  have hnames := columnNames_fields hv.nodup
  have hitems : order.map (d.orderItem l.flatten) = order :=
    (List.map_congr_left fun item hitem => orderItem_of_over (hover item hitem) hd.finds).trans
      (List.map_id _)
  have hkeys : ∀ e ∈ order.map OrderItem.expr,
      e.Over engine.functions v.fields ∧ Expr.KeyPart order e := by
    intro e he
    obtain ⟨item, hitem, rfl⟩ := List.mem_map.mp he
    exact ⟨hover item hitem, item, hitem, .self _⟩
  let place (k : Nat) : Nat := places.getD k 0
  -- in every row there are the keys of the row that is displayed, and then its cells
  have hrow : ∀ k ∈ List.range d.size, ∃ d', Evaluator.values engine
      (Expr.evaluators engine (order.map OrderItem.expr)) k false d =
        .ok (v.key engine order (place k)) d' ∧
      (selectedRow engine (v.fields.map Expr.field) v.fields k).runIn d' =
        .ok (Labelled.ofList (v.fields.zip (v.cells (place k)))) := by
    intro k hk
    have hplace : places[k]? = some (place k) := by
      have hk := List.mem_range.mp hk
      rw [hd.size] at hk
      simp [place, hk]
    have hlt : place k < v.rows.size := hplaces _ (List.mem_of_getElem? hplace)
    have hget := Array.getElem?_eq_getElem hlt
    obtain ⟨d', hvalues, hworked⟩ := Expr.Over.exists_values hfamily hkeys (hd.shows hv hplace hget)
      hd.finds (fun r _ _ x hx => by rw [hnone] at hx; cases hx) (hkeyed.amounts hget)
    refine ⟨d', hvalues, ?_⟩
    rw [selectedRow, runIn_bind_pure, values_of_displays (hd.touched hworked.touched) hplace]
    rfl
  have hselects := Selects.refl hgrouped (hgrouped.emptyGroup.resolve_right hsize)
  have hall := @selectAll_of_selects engine d d v.fields order (List.range d.size) _ l
    (fun k => v.key engine order (place k)) (fun k => .ofList (v.fields.zip (v.cells (place k))))
    hselects hl (hflat ▸ hnames) (fun e he => ?_) (fun item hitem => (hover item hitem).window?_eq_none)
    (fun k hk => ?_) fun k hk => ?_
  · have hsorted := map_sortPlaces (order.map OrderItem.direction) (v.key engine order) place
      (List.range d.size)
    have hplaced : (List.range d.size).map place = places := by
      rw [hd.size]
      exact (map_range_getD places id).trans (List.map_id _)
    have hmem : ∀ i ∈ sortPlaces (order.map OrderItem.direction) (v.key engine order) places,
        i < v.size := fun i hi => hplaces i ((sortPlaces_perm _ _ _).subset hi)
    rw [hall, hitems, hv.take_eq hmem, ← hplaced, ← hsorted, List.map_map]
    rfl
  · rw [hflat] at he
    obtain ⟨name, -, rfl⟩ := List.mem_map.mp he
    rfl
  · rw [hitems]
    obtain ⟨d', hvalues, -⟩ := hrow k hk
    exact runIn_eq_ok.mpr ⟨d', hvalues⟩
  · rw [hitems, hflat]
    obtain ⟨d', hvalues, hselected⟩ := hrow k hk
    rw [sortedRow_of_keys hvalues, hselected]

/-- The distinct rows of a view are sorted by its keys. -/
theorem distinctRows_of_keyed (hv : v.Complete) (hkeyed : v.Keyed engine order)
    (hover : ∀ item ∈ order, item.expr.Over engine.functions v.fields)
    (hfamily : Expr.Family (Expr.KeyPart order)) :
    distinctRows engine v order none = .ok (v.take (sortPlaces (order.map OrderItem.direction)
      (v.key engine order) (firstPlaces v.cells v.size))) := by
  obtain ⟨c, hadd⟩ : ∃ c, addView distinctAlias v {} = .ok ⟨⟩ c := ⟨_, addView_new _ _⟩
  obtain ⟨groups, d, hgroup, hdisplays, hnone⟩ := @displays_groupBy engine _ _ _ hv hadd
  obtain ⟨hgrouped, hunseen, -⟩ := grouped_groupBy _ (loaded_addView hadd) hgroup
  rw [distinctRows, runIn_bind_of_ok hadd, runIn_bind_of_ok (discard_of_ok hgroup)]
  have hplaces : ∀ i ∈ firstPlaces v.cells v.size, i < v.size := fun i hi => (mem_firstPlaces.mp hi).1
  generalize firstPlaces v.cells v.size = places at hdisplays hplaces
  by_cases hsize : d.size = 0
  · -- without rows there is nothing to sort
    have hvacant : d.Vacant := ⟨hgrouped.aligned, hsize, hunseen⟩
    have hagg := unaggregated_groupBy (aggregateFree_fields _ _) (unaggregated_addView hadd) hgroup
    have hordered : ordered engine ((v.fields.map Expr.field).map .expr) order d =
        .ok (v.fields.map Expr.field, v.fields) d :=
      ordered_exprs_eq_ok.mpr ⟨rfl, columnNames_fields hv.nodup, hvacant.arranged_eq _ _⟩
    rw [selectAll_eq, runIn_bind_of_ok hordered]
    show (project engine (v.fields.map Expr.field) v.fields).runIn d = _
    rw [project_of_displays hv hdisplays hplaces hgrouped.sourceEmpty hagg,
      List.eq_nil_of_length_eq_zero (hdisplays.size.symm.trans hsize), (sortPlaces_perm _ _ []).eq_nil]
  · exact selectAll_of_displays hv hdisplays hplaces hgrouped hsize hnone hkeyed hover hfamily

end Step

namespace Statement

open Step

variable {engine : Engine} {tables : Tables} {source : Source} {clauses : Clauses} {v : View}
  {fields : List String} {exprs : List Expr}

/-- What is selected when all rows are prepared. -/
def Selects (engine : Engine) (tables : Tables) (source : Source) (clauses : Clauses)
    (exprs : List Expr) : Prop :=
  ∃ aliases s p l, loadSource engine tables source {} = .ok aliases s ∧ prepare engine clauses s = .ok ⟨⟩ p ∧
    clauses.items.mapM p.itemExprs = .ok l ∧ exprs = l.flatten

/-- A query is sorted by selected expressions, computed from columns that it selects under their own names.
Labels tell the keys apart from whatever else is remembered: from what is selected, from what rows are grouped
by and from what windows are partitioned by. Where there are groups, no join has turned all rows into one. -/
structure SortsBySelected (engine : Engine) (tables : Tables) (source : Source) (clauses : Clauses)
    (fields : List String) (exprs : List Expr) : Prop where
  selects : Selects engine tables source clauses exprs
  order : SelectedOrder engine fields exprs clauses.orderBy
  columns : fields ≠ []
  keys : clauses.orderBy ≠ []
  partitioned : ∀ e ∈ exprs, ∀ p ∈ e.partition, p.Clear (Expr.KeyPart clauses.orderBy)
  grouped : ∀ k ∈ clauses.groupBy, k.Clear (Expr.KeyPart clauses.orderBy)
  kept : ∀ k ∈ clauses.groupBy, (∀ name, k.body ≠ .field name) →
    (∀ table name, k.body ≠ .qualified table name) →
    ∀ r, Expr.KeyPart clauses.orderBy r → r.isRemembered = true → k.label = r.label → k = r
  joins : clauses.groupBy ≠ [] → ∀ on ∈ source.conditions, on.AggregateFree engine.functions

/-- What is selected from prepared rows is selected from rows that can be trusted. -/
theorem SortsBySelected.reliable (h : SortsBySelected engine tables source clauses fields exprs)
    {aliases : List String} {s p : Context} (hload : loadSource engine tables source {} = .ok aliases s)
    (hprepare : prepare engine clauses s = .ok ⟨⟩ p) :
    p.Reliable engine fields clauses.orderBy ∧ p.sourceEmpty = false ∧ p.sawPlainColumn = false := by
  have hloaded := loaded_loadSource engine tables source rfl hload
  refine ⟨reliable_prepare h.order h.columns h.grouped h.kept ⟨hloaded,
    bare_loadSource engine tables source rfl hload, fun hgroups =>
      (named_loadSource engine tables source (h.joins hgroups) rfl hload).1⟩ hprepare,
    (ready_prepare hloaded hprepare).2, ?_⟩
  by_cases hgroups : clauses.groupBy = []
  · exact (loaded_prepare hgroups hloaded hprepare).unseen
  · exact (grouped_prepare hgroups hloaded hprepare).2.1

/-- What is selected in order is what is selected as it comes, with its rows sorted by keys in its columns. -/
theorem SortsBySelected.exists_of_selectAll (h : SortsBySelected engine tables source clauses fields exprs)
    {aliases : List String} {s p d : Context} (hload : loadSource engine tables source {} = .ok aliases s)
    (hprepare : prepare engine clauses s = .ok ⟨⟩ p)
    (hall : selectAll engine clauses.items clauses.orderBy none p = .ok v d) :
    ∃ w, (selectAll engine clauses.items [] none).runIn p = .ok w ∧ w.Keyed engine clauses.orderBy ∧
      (∀ name ∈ fields, name ∈ w.fields) ∧
      v = w.take (sortPlaces (clauses.orderBy.map OrderItem.direction) (w.key engine clauses.orderBy)
        (List.range w.size)) := by
  obtain ⟨hreliable, hempty, hunseen⟩ := h.reliable hload hprepare
  obtain ⟨exprs', names, c, hordered, hproject⟩ := exists_of_selectAll_eq_ok hall
  obtain ⟨⟨l, hl, rfl⟩, hnames, harranged⟩ := ordered_eq_ok.mp hordered
  obtain ⟨aliases', s', p', l', hload', hprepare', hl', rfl⟩ := h.selects
  obtain ⟨rfl, rfl⟩ : aliases = aliases' ∧ s = s' := by
    rw [hload] at hload'
    cases hload'
    exact ⟨rfl, rfl⟩
  obtain rfl : p = p' := by
    rw [hprepare] at hprepare'
    cases hprepare'
    rfl
  obtain rfl : l = l' := Except.ok.inj (hl.symm.trans hl')
  obtain ⟨⟨⟩, c₁, hwindows, harrange⟩ := exists_of_bind_eq_ok harranged
  -- windows leave rows that can be trusted
  have hreliable₁ : c₁.Reliable engine fields clauses.orderBy :=
    Ensures.forM _ (fun e he => (lasting_reliable h.order h.columns).computeWindow e (h.partitioned e he))
      hreliable hwindows
  have hempty₁ : c₁.sourceEmpty = false := by
    have hmarks : c₁.marks = p.marks := Ensures.forM _ (fun e _ =>
      (lasting_marks engine p.marks).computeWindow e fun _ _ => .inl trivial) rfl hwindows
    exact (congrArg (·.2.1) hmarks).trans hempty
  have hunseen₁ : c₁.sawPlainColumn = false :=
    Ensures.forM _ (fun e _ => (lasting_unseen engine).computeWindow e fun _ _ => trivial) hunseen hwindows
  obtain ⟨w, hw, hkeyed, hv⟩ := exists_of_arrange h.order h.columns h.keys hnames hreliable₁.aligned hempty₁
    hunseen₁ hreliable₁.trusted harrange hproject
  have hunordered : ordered engine clauses.items [] p = .ok (l.flatten, names) c₁ := by
    refine ordered_eq_ok.mpr ⟨⟨l, hl, rfl⟩, hnames, ?_⟩
    rw [arranged, bind_of_ok hwindows]
    rfl
  refine ⟨w, ?_, hkeyed, fun name hname => ?_, hv⟩
  · rw [selectAll_eq, runIn_bind_of_ok hunordered]
    exact hw
  · obtain ⟨e, hw⟩ := runIn_eq_ok.mp hw
    rw [fields_project _ _ trivial hw]
    obtain ⟨k, _, -, hk, -⟩ := exists_of_column engine hnames (h.order.columns name hname)
    exact List.mem_of_getElem? hk

/-- Where a query is sorted by selected expressions, its distinct rows stay in order: removing duplicates
before rows are sorted leaves what is left when they are removed afterwards. -/
theorem execute_distinct_sorted (h : SortsBySelected engine tables source clauses fields exprs)
    (hv : execute engine tables (.select source { clauses with quantifier := none, limit := none }) =
      .ok v) :
    execute engine tables (.select source { clauses with quantifier := some .distinct, limit := none }) =
      .ok v.distinct := by
  obtain ⟨aliases, s, p, d, hload, hprepare, hselect⟩ := exists_of_execute_eq_ok hv
  have hprepare' : prepare engine
    { clauses with quantifier := some .distinct, limit := none } s = .ok ⟨⟩ p := hprepare
  rw [select.eq_def] at hselect
  dsimp only at hselect
  obtain ⟨w, hw, hkeyed, hfields, rfl⟩ := h.exists_of_selectAll hload hprepare hselect
  obtain ⟨e, hall⟩ := runIn_eq_ok.mp hw
  have hcomplete : w.Complete := complete_selectAll _ _ _ trivial hall
  rw [execute_of_prepared hload hprepare', select.eq_def]
  dsimp only
  rw [runIn_bind_of_ok hall, runIn_lift, distinctRows_of_keyed hcomplete hkeyed
    (fun item hitem => (h.order.computed item hitem).mono hfields) h.order.family]
  exact congrArg Except.ok (hcomplete.distinct_take_sortPlaces (w.length_key engine clauses.orderBy)
    fun i hi j hj hsame => hkeyed.level hi hj hsame).symm

/-- Whether a column is less than three. -/
def isSmall : Expr := .binary .lt (.field "x") (.literal (.ofNat 3))

/-- Selects a column and whether it is less than three, and sorts by this. -/
def bySize : Clauses :=
  { selecting [.expr (.field "x"), .expr (.aliased isSmall "y")] with orderBy := [.mk isSmall .ascending] }

theorem selectedOrder_bySize : SelectedOrder .builtin ["x"] [.field "x", .aliased isSmall "y"]
    bySize.orderBy := by
  let evaluated : List Expr := [.field "x", .aliased isSmall "y", isSmall, .literal (.ofNat 3)]
  have hparts : ∀ e ∈ evaluated, ∀ p ∈ e.operands, p ∈ evaluated := by
    simp [evaluated, isSmall, Expr.operands]
  have hapart : Expr.LabelsApart (· ∈ evaluated) := Expr.labelsApart_of_nodup (by decide +kernel)
  have hkeys : ∀ r, Expr.KeyPart bySize.orderBy r → r ∈ evaluated := by
    rintro r ⟨item, hitem, hr⟩
    obtain rfl := List.mem_singleton.mp hitem
    exact hr.mem hparts (by simp [evaluated, OrderItem.expr])
  have hover : isSmall.Over Engine.builtin.functions ["x"] := by
    refine .composed rfl fun p hp => ?_
    obtain rfl | rfl : p = .field "x" ∨ p = .literal (.ofNat 3) := by
      simpa [isSmall, Expr.operands] using hp
    · exact .field (by simp)
    · exact .composed rfl fun _ h => by cases h
  exact {
    columns := by simp
    computed := fun item hitem => List.mem_singleton.mp hitem ▸ hover
    selected := fun item hitem => List.mem_singleton.mp hitem ▸ .inr ⟨"y", by simp [OrderItem.expr]⟩
    family := .keyPart fun _ _ he he' => hapart (hkeys _ he) (hkeys _ he')
    clear := fun e he => .of_apart hapart hkeys fun q hq => hq.mem hparts (by
      obtain rfl | rfl := List.mem_pair.mp he <;> simp [evaluated]) }

/-- All keys are level, so that rows stay in their order. -/
theorem execute_bySize : execute .builtin repeated (.select (.factor (.table "t" none)) bySize) =
    .ok ⟨["x", "y"], #[.ofList [("x", .ofNat 1), ("y", .boolean true)],
      .ofList [("x", .ofNat 2), ("y", .boolean true)],
      .ofList [("x", .ofNat 1), ("y", .boolean true)]]⟩ := by
  let exprs : List Expr := [.field "x", .aliased isSmall "y"]
  obtain ⟨s, hload, keys, d, hrows, hsize, hsorted, hproject⟩ : ∃ s,
      loadSource .builtin repeated (.factor (.table "t" none)) {} = .ok ["t"] s ∧ ∃ keys d,
      rows (fun i => Evaluator.values .builtin (Expr.evaluators .builtin
        ((bySize.orderBy.map (s.orderItem exprs)).map OrderItem.expr)) i false) s = .ok keys d ∧
      keys.size = d.size ∧ (keys.toList.Pairwise fun a b => compareKeys [.ascending] a b ≠ .gt) ∧
      (project .builtin exprs ["x", "y"]).runIn { d with sawPlainColumn := false } =
        .ok ⟨["x", "y"], #[.ofList [("x", .ofNat 1), ("y", .boolean true)],
          .ofList [("x", .ofNat 2), ("y", .boolean true)],
          .ofList [("x", .ofNat 1), ("y", .boolean true)]]⟩ :=
    ⟨_, rfl, _, _, rfl, rfl, by decide +kernel, rfl⟩
  obtain ⟨_, hd, -⟩ := (lasting_aligned .builtin).values (fun _ _ => trivial)
    (loaded_loadSource _ _ _ rfl hload).aligned hrows
  have hordered : ordered .builtin bySize.items bySize.orderBy s = _ :=
    ordered_of_sorted (by simp [exprs, isSmall, Expr.window?]) (fun item hitem =>
      List.mem_singleton.mp hitem ▸ rfl) (List.cons_ne_nil _ _) rfl hrows hsize hd.1 hsorted
  have hprepare : prepare .builtin bySize s = .ok ⟨⟩ s := rfl
  rw [execute_of_prepared hload hprepare, select.eq_def]
  show (selectAll .builtin bySize.items bySize.orderBy none).runIn s = _
  rw [selectAll_eq, runIn_bind_of_ok hordered]
  exact hproject

theorem execute_distinct_bySize :
    execute .builtin repeated (.select (.factor (.table "t" none))
      { bySize with quantifier := some .distinct }) =
      .ok ⟨["x", "y"], #[.ofList [("x", .ofNat 1), ("y", .boolean true)],
        .ofList [("x", .ofNat 2), ("y", .boolean true)]]⟩ := by
  have hsorts : SortsBySelected .builtin repeated (.factor (.table "t" none)) bySize ["x"]
      [.field "x", .aliased isSmall "y"] := {
    selects := ⟨_, _, _, _, rfl, rfl, rfl, rfl⟩
    order := selectedOrder_bySize
    columns := by simp
    keys := by simp [bySize]
    partitioned := by simp [isSmall, Expr.partition]
    grouped := nofun
    kept := nofun
    joins := fun hgroups => absurd rfl hgroups }
  exact execute_distinct_sorted hsorts execute_bySize

/-- A key that is computed from a column is not there among distinct rows, even if it is selected itself:
when rows are distinct there are only the columns of the result, and the column of the key is none. -/
theorem not_forall_execute_distinct_sorted : ¬ ∀ (tables : Tables) (source : Source) (clauses : Clauses)
    (v : View), clauses.orderBy ≠ [] →
    (∀ item ∈ clauses.orderBy, .expr item.expr ∈ clauses.items ∨
      ∃ name, .expr (.aliased item.expr name) ∈ clauses.items) →
    execute .builtin tables (.select source { clauses with quantifier := none, limit := none }) = .ok v →
    execute .builtin tables (.select source { clauses with quantifier := some .distinct, limit := none }) =
      .ok v.distinct := by
  intro hall
  let clauses : Clauses := { selecting ([isSmall].map .expr) with orderBy := [.mk isSmall .ascending] }
  obtain ⟨s, hload, key, d, hkey, hone, row, e, hrow, hd, he, hempty⟩ : ∃ s,
      loadSource .builtin number (.factor (.table "t" none)) {} = .ok ["t"] s ∧ ∃ key d,
      Evaluator.values .builtin (Expr.evaluators .builtin
        ((clauses.orderBy.map (s.orderItem [isSmall])).map OrderItem.expr)) 0 false s = .ok key d ∧
      s.size = 1 ∧ ∃ row e, selectedRow .builtin [isSmall] [isSmall.label] 0
        { d with sawPlainColumn := false } = .ok row e ∧ d.size = 1 ∧ e.size = 1 ∧ e.sourceEmpty = false :=
    ⟨_, rfl, _, _, rfl, rfl, _, _, rfl, rfl, rfl, rfl⟩
  obtain ⟨-, hselect⟩ := selectAll_of_one (loaded_loadSource _ _ _ rfl hload).aligned hone
    (fun e he => List.mem_singleton.mp he ▸ rfl) (fun item hitem => List.mem_singleton.mp hitem ▸ rfl)
    (List.cons_ne_nil _ _) rfl hkey hrow hd he hempty
  have hprepare : prepare .builtin clauses s = .ok ⟨⟩ s := rfl
  have hsorted : execute .builtin number (.select (.factor (.table "t" none)) clauses) =
      .ok ⟨[isSmall.label], #[row]⟩ := by
    rw [execute_of_prepared hload hprepare, select.eq_def]
    exact runIn_eq_ok.mpr ⟨_, hselect⟩
  have hdistinct := hall number (.factor (.table "t" none)) clauses _ (List.cons_ne_nil _ _)
    (fun item hitem => List.mem_singleton.mp hitem ▸ .inl (by simp [clauses, selecting, OrderItem.expr]))
    hsorted
  have hfails : (execute .builtin number (.select (.factor (.table "t" none))
      { clauses with quantifier := some .distinct, limit := none })).isOk = false := by decide +kernel
  rw [hdistinct] at hfails
  cases hfails

end Statement

end TableQuery
