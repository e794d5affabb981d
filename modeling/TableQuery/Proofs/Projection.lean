/-
Selecting from rows one by one.

A query that neither groups rows nor calls aggregates or windows gives one row for each row of its
source for which its condition is true, in their order, with the values that the items have there. Labels
have to tell apart what is evaluated for the items. When no row is kept there is no row in the result; but
the items are evaluated in a row of Null all the same, and have to have values there.

* `Context.Keeps` — rows of a context are those at given places of another;
* `Step.project_of_standIn` — nothing is selected from no rows;
* `Statement.execute_projection` — the result of the query;
* `Statement.not_forall_execute_projection` — items that have no values for Null, although there is no
  row to select from.
-/
import TableQuery.Proofs.Independence
import TableQuery.Proofs.Limit
import TableQuery.Proofs.Transparency

namespace TableQuery

/-! ### Rows that are kept -/

/-- Nothing is remembered about the rows of the second context, which are those at the given places of the
first. -/
structure Context.Keeps (places : List Nat) (c d : Context) : Prop where
  frame : d.frame = c.frame.take places
  forgotten : d.Forgotten
  direct : d.direct = c.direct
  ambiguous : d.ambiguous = c.ambiguous
  collapsed : d.collapsed = c.collapsed
  marks : d.marks = c.marks
  aggregated : d.aggregated = c.aggregated

namespace Context.Keeps

variable {places : List Nat} {c d : Context} (h : c.Keeps places d)

include h

theorem size : d.size = places.length := by
  rw [Context.size, h.frame, Frame.size_take]

theorem sourceEmpty : d.sourceEmpty = c.sourceEmpty := congrArg (·.2.1) h.marks

theorem emptyGroup : d.emptyGroup = c.emptyGroup := congrArg (·.2.2) h.marks

theorem sameRow (hc : c.Loaded) (hplaces : ∀ p ∈ places, p < c.size) {k i : Nat}
    (hk : places[k]? = some i) : d.SameRow k i c where
  frame := h.frame ▸ .take hc.aligned.frame hplaces hk
  direct := h.direct
  ambiguous := h.ambiguous
  collapsed := h.collapsed
  sourceEmpty := h.sourceEmpty
  memo := by
    have hlt : k < d.size := h.size ▸ (List.getElem?_eq_some_iff.mp hk).1
    rw [h.forgotten.memo hlt, hc.forgotten.memo (hplaces i (List.mem_of_getElem? hk))]

/-- Items stand for the same columns of tables. -/
theorem itemExprs : d.itemExprs = c.itemExprs := by
  refine Step.itemExprs_congr h.direct ?_
  rw [h.frame, Frame.take, List.map_map]
  rfl

/-- The row of Null that stands in for no rows is the same. -/
theorem sameRow_standIn : (Step.standIn d).SameRow 0 0 (Step.standIn c) := by
  have hviews : d.frame.nullRow.views = c.frame.nullRow.views := by
    rw [h.frame, Frame.nullRow, Frame.take, List.map_map]
    rfl
  have hframe : (Step.standIn d).frame = (Step.standIn c).frame := by
    refine Frame.eq_of_views_of_rows hviews ?_
    show (d.frame.nullRow.modifyRow 0 _).rows = (c.frame.nullRow.modifyRow 0 _).rows
    rw [h.emptyGroup]
    rfl
  exact ⟨hframe ▸ .refl 0 _, h.direct, h.ambiguous, h.collapsed, rfl, rfl⟩

end Context.Keeps

namespace Step

variable {engine : Engine} {c : Context} {exprs : List Expr} {names : List String}

/-- Whether a row passes a condition, if there is one. -/
def passes (engine : Engine) (condition : Option Expr) (i : Nat) : Step Bool :=
  condition.elim (pure true) (holds engine · i)

/-- The condition of a query keeps the rows that pass it. -/
theorem prepare_of_truth {items : List SelectItem} {condition : Option Expr} {truth : Nat → Bool}
    (hc : c.Loaded) (hagg : c.aggregated = false)
    (hfree : ∀ p ∈ condition, p.AggregateFree engine.functions)
    (htruth : ∀ i < c.size, (passes engine condition i).runIn c = .ok (truth i)) :
    ∃ d, prepare engine { Statement.selecting items with condition := condition } c = .ok () d ∧
      c.Keeps ((List.range c.size).filter truth) d := by
  cases condition with
  | none =>
    have hall : (List.range c.size).filter truth = List.range c.size := by
      refine List.filter_eq_self.mpr fun i hi => ?_
      exact (Except.ok.inj (htruth i (List.mem_range.mp hi))).symm
    refine ⟨c, rfl, ?_⟩
    rw [hall]
    exact ⟨hc.aligned.frame.take_range.symm, hc.forgotten, rfl, rfl, rfl, rfl, rfl⟩
  | some p =>
    obtain ⟨d, ht, hfilter⟩ := filter_of_truth (fun i _ => .inr (hfree p rfl)) htruth
    have hlasting := (steady_unaggregated engine).lasting (fun _ h => h) (fun _ h => h)
      (fun _ h => h) fun h _ => h
    have hagg' := hlasting.filter (.inr (hfree p rfl)) hagg hfilter
    refine ⟨_, bind_of_ok hfilter, rfl, rfl, ht.direct, ht.ambiguous, ht.collapsed, ?_,
      hagg'.trans hagg.symm⟩
    show (d.grouped, d.sourceEmpty, d.emptyGroup) = _
    rw [ht.grouped, ht.sourceEmpty, ht.emptyGroup]
    rfl

/-- What is selected in a row are the values that the items have there alone. -/
theorem selectedRow_of_values {i : Nat} {value : Expr → Value} (hlabels : Expr.LabelsDiffer (· ∈ exprs))
    (hfree : ∀ e ∈ exprs, e.AggregateFree engine.functions)
    (hfresh : ∀ label, c.held? i label = none)
    (hvalue : ∀ e ∈ exprs, (evaluate engine e i false).runIn c = .ok (value e)) :
    (selectedRow engine exprs names i).runIn c =
      .ok (Labelled.ofList (names.zip (exprs.map value))) := by
  have hvalues : exprs.mapM (fun e => ((e.evaluator engine).value engine i false).runIn c) =
      .ok (exprs.map value) := mapM_eq_ok hvalue
  rw [selectedRow, runIn_bind_pure, runIn_values hlabels.family hfresh fun e he =>
    ⟨.of_root he, .inr (hfree e he)⟩, hvalues]
  rfl

theorem held?_of_forgotten (hc : c.Forgotten) (i : Nat) (label : String) :
    c.held? i label = none := by
  rw [Context.held?, hc, Array.getElem?_replicate]
  split
  · exact Labelled.get?_empty label
  · rfl

/-- From no rows nothing is selected, if the items have values in a row of Null and no aggregate is
called. -/
theorem project_of_standIn {row : Row} (hsize : c.size = 0) (hagg : c.aggregated = false)
    (hfree : ∀ e ∈ exprs, e.AggregateFree engine.functions)
    (hrow : (selectedRow engine exprs names 0).runIn (standIn c) = .ok row) :
    (project engine exprs names).runIn c = .ok ⟨names, #[]⟩ := by
  by_cases hgroups : c.grouped = true ∧ c.emptyGroup.isNone = true
  · have hnone := Option.isNone_iff_eq_none.mp hgroups.2
    exact runIn_eq_ok.mpr ⟨_, project_without_groups hsize hgroups.1 hnone⟩
  have hrows := (local_selectedRow engine exprs names).rows (c := standIn c) fun _ _ => .inr hfree
  rw [size_standIn, mapM_eq_ok (g := fun _ => row) fun i hi => by
    obtain rfl : i = 0 := by simpa using hi
    exact hrow] at hrows
  obtain ⟨d, hd, -⟩ := hrows.eq_ok
  have hproject : ∃ v e, project engine exprs names c = .ok v e := by
    refine ⟨⟨names, if d.sourceEmpty && !d.aggregated then #[] else #[row]⟩, {}, ?_⟩
    rw [project, get_bind, if_neg fun h => hgroups h.2]
    simp only [hsize, if_true]
    exact (bind_of_ok (s := set (standIn c)) (d := standIn c) (a := ⟨⟩) rfl).trans (bind_of_ok hd)
  obtain ⟨v, e, hv⟩ := hproject
  have hnone := (project_without_rows hsize hv).2 hagg hfree
  have hfields : v.fields = names := fields_project exprs names trivial hv
  refine runIn_eq_ok.mpr ⟨e, hv.trans ?_⟩
  rw [View.eq_empty hnone, hfields]
  rfl

/-- From rows that are kept one row each is selected, with the values that the items had there. -/
theorem project_of_keeps {p : Context} {places : List Nat} {value : Nat → Expr → Value}
    (hkeeps : c.Keeps places p) (hc : c.Loaded) (hsome : places ≠ [])
    (hplaces : ∀ i ∈ places, i < c.size) (hlabels : Expr.LabelsDiffer (· ∈ exprs))
    (hfree : ∀ e ∈ exprs, e.AggregateFree engine.functions)
    (hvalue : ∀ i ∈ places, ∀ e ∈ exprs, (evaluate engine e i false).runIn c = .ok (value i e)) :
    (project engine exprs names).runIn p = .ok ⟨names, (places.map fun i =>
      Labelled.ofList (names.zip (exprs.map (value i)))).toArray⟩ := by
  have hsize : p.size ≠ 0 := by
    rw [hkeeps.size]
    exact fun h => hsome (List.length_eq_zero_iff.mp h)
  have hempty : p.sourceEmpty = false := hkeeps.sourceEmpty.trans (congrArg (·.2.1) hc.marks)
  let row (i : Nat) : Row := Labelled.ofList (names.zip (exprs.map (value i)))
  -- row `k` is the row of the source at place `k` of those that are kept
  have hrow : ∀ k < p.size, (selectedRow engine exprs names k).runIn p =
      .ok (row (places.getD k 0)) := by
    intro k hk
    have hk' : places[k]? = some (places.getD k 0) := by
      rw [hkeeps.size] at hk
      simp [hk]
    have hmem := List.mem_of_getElem? hk'
    refine selectedRow_of_values hlabels hfree (held?_of_forgotten hkeeps.forgotten k) fun e he => ?_
    rw [← hvalue _ hmem e he]
    exact (local_evaluate engine e false).runIn_eq (.inr (hfree e he)) (hkeeps.sameRow hc hplaces hk')
  rw [project_of_rows hsize hempty (fun _ _ => .inr hfree) hrow, hkeeps.size, map_range_getD places row]

/-- When no row is kept there is nothing to select, if the items have values in a row of Null. -/
theorem project_of_keeps_none {p : Context} (hkeeps : c.Keeps [] p)
    (hagg : c.aggregated = false) (hlabels : Expr.LabelsDiffer (· ∈ exprs))
    (hfree : ∀ e ∈ exprs, e.AggregateFree engine.functions)
    (hnull : ∀ e ∈ exprs, ∃ x, (evaluate engine e 0 false).runIn (standIn c) = .ok x) :
    (project engine exprs names).runIn p = .ok ⟨names, #[]⟩ := by
  let value (e : Expr) : Value :=
    ((evaluate engine e 0 false).runIn (standIn c)).toOption.getD .null
  have hvalue : ∀ e ∈ exprs, (evaluate engine e 0 false).runIn (standIn p) = .ok (value e) := by
    intro e he
    obtain ⟨x, hx⟩ := hnull e he
    have hx' : (evaluate engine e 0 false).runIn (standIn p) = .ok x :=
      ((local_evaluate engine e false).runIn_eq (.inr (hfree e he)) hkeeps.sameRow_standIn).trans hx
    simp only [value, hx, hx', Except.toOption, Option.getD_some]
  exact project_of_standIn hkeeps.size (hkeeps.aggregated.trans hagg) hfree
    (selectedRow_of_values hlabels hfree (held?_of_forgotten (c := standIn p) rfl 0) hvalue)

/-- Without windows, order and limit only the items are left to be selected. -/
theorem runIn_selectAll {items : List SelectItem}
    (hexprs : (items.mapM c.itemExprs).map List.flatten = .ok exprs)
    (hnames : columnNames exprs = .ok names) (hwindows : ∀ e ∈ exprs, e.window? = none) :
    (selectAll engine items [] none).runIn c = (project engine exprs names).runIn c := by
  have hordered : ordered engine items [] c = .ok (exprs, names) c :=
    ordered_eq_ok.mpr ⟨exists_of_map_eq_ok hexprs, hnames, arranged_nil hwindows c⟩
  rw [selectAll_eq, runIn_bind_of_ok hordered]
  rfl

end Step

/-- The conditions of the joins of a source. -/
def Source.conditions : Source → List Expr
  | .nothing | .factor _ => []
  | .leftJoin left _ on => left.conditions ++ [on]

namespace Statement

open Step

variable {engine : Engine} {tables : Tables} {source : Source}

/-- No aggregate is called when a source is loaded, if none is in the conditions of its joins. -/
theorem unaggregated_loadSource (engine : Engine) (tables : Tables) (source : Source)
    (h : ∀ on ∈ source.conditions, on.AggregateFree engine.functions) :
    Ensures (· = {}) (loadSource engine tables source) fun _ c => c.aggregated = false := by
  induction source using Source.left_induction with
  | nothing =>
    rw [loadSource]
    refine Ensures.bind (Q := fun _ c => c.aggregated = false) ?_ fun _ => .pure _ fun _ h => h
    refine .modify _ fun c hc => ?_
    subst hc
    rfl
  | factor f =>
    rw [loadSource]
    refine (Ensures.lift (Q := fun _ c => c = {}) _ fun c _ hc _ => hc).bind fun v => ?_
    refine Ensures.bind (Q := fun _ c => c.aggregated = false) ?_ fun _ => .pure _ fun _ h => h
    rintro c a d rfl he
    exact unaggregated_addView he
  | leftJoin left right on ih =>
    rw [loadSource]
    refine (ih fun e he => h e (List.mem_append_left _ he)).bind fun aliases => ?_
    refine (Ensures.lift (Q := fun _ c => c.aggregated = false) _ fun c _ hc _ => hc).bind fun v => ?_
    exact unaggregated_leftJoin aliases right.name v (h on (List.mem_append_right _ (by simp)))

/-- Without grouping, aggregates and windows a query gives one row for each row of its source that passes
its condition, in order, with the values of the items there. -/
theorem execute_projection {aliases : List String} {c : Context} {items : List SelectItem}
    {condition : Option Expr} {exprs : List Expr} {names : List String} {truth : Nat → Bool}
    {value : Nat → Expr → Value}
    (hload : loadSource engine tables source {} = .ok aliases c)
    (hjoins : ∀ on ∈ source.conditions, on.AggregateFree engine.functions)
    (hcondition : ∀ p ∈ condition, p.AggregateFree engine.functions)
    (hitems : ∀ e, .expr e ∈ items → e.AggregateFree engine.functions ∧ e.window? = none)
    (hexprs : (items.mapM c.itemExprs).map List.flatten = .ok exprs)
    (hnames : columnNames exprs = .ok names) (hlabels : Expr.LabelsDiffer (· ∈ exprs))
    (htruth : ∀ i < c.size, (passes engine condition i).runIn c = .ok (truth i))
    (hvalue : ∀ i < c.size, truth i = true → ∀ e ∈ exprs,
      (evaluate engine e i false).runIn c = .ok (value i e))
    (hnull : (∀ i < c.size, truth i = false) → ∀ e ∈ exprs,
      ∃ x, (evaluate engine e 0 false).runIn (standIn c) = .ok x) :
    execute engine tables (.select source { selecting items with condition := condition }) =
      .ok ⟨names, (((List.range c.size).filter truth).map fun i =>
        Labelled.ofList (names.zip (exprs.map (value i)))).toArray⟩ := by
  have hloaded := loaded_loadSource engine tables source rfl hload
  have hagg := unaggregated_loadSource engine tables source hjoins rfl hload
  obtain ⟨p, hprepare, hkeeps⟩ := @prepare_of_truth engine c items condition truth hloaded hagg
    hcondition htruth
  have hwanted : ∀ e ∈ exprs, e.AggregateFree engine.functions ∧ e.window? = none := by
    cases hm : items.mapM c.itemExprs with
    | error e => rw [hm] at hexprs; cases hexprs
    | ok l =>
      rw [hm] at hexprs
      cases hexprs
      exact forall_itemExprs (fun name => ⟨.of_field _ name, rfl⟩)
        (fun table name => ⟨.of_qualified _ table name, rfl⟩) hitems hm
  have hfree : ∀ e ∈ exprs, e.AggregateFree engine.functions := fun e he => (hwanted e he).1
  rw [execute_of_prepared hload hprepare]
  show (selectAll engine items [] none).runIn p = _
  rw [runIn_selectAll (by rw [hkeeps.itemExprs]; exact hexprs) hnames fun e he => (hwanted e he).2]
  -- when no row is kept the items are still evaluated, in a row of Null that stands in
  by_cases hnone : (List.range c.size).filter truth = []
  · rw [hnone] at hkeeps ⊢
    refine project_of_keeps_none hkeeps hagg hlabels hfree (hnull fun i hi => ?_)
    exact Bool.eq_false_iff.mpr (List.filter_eq_nil_iff.mp hnone i (List.mem_range.mpr hi))
  · refine project_of_keeps hkeeps hloaded hnone (fun i hi => ?_) hlabels hfree fun i hi e he => ?_
    · exact List.mem_range.mp (List.mem_filter.mp hi).1
    · obtain ⟨hlt, htrue⟩ := List.mem_filter.mp hi
      exact hvalue i (List.mem_range.mp hlt) htrue e he

/-- The rows of the table of three numbers. -/
def numbersContext : Context := Context.after .builtin {} (.addView "t" ⟨["x"],
  #[.ofList [("x", .ofNat 1)], .ofList [("x", .ofNat 2)], .ofList [("x", .ofNat 3)]]⟩)

theorem execute_projection_numbers :
    execute .builtin numbers (.select (.factor (.table "t" none))
      { selecting [.wildcard, .expr (.aliased (.isNull (.field "x") false) "missing")] with
        condition := some (.binary .ne (.field "x") (.literal (.ofNat 2))) }) =
      .ok ⟨["x", "missing"], #[.ofList [("x", .ofNat 1), ("missing", .boolean false)],
        .ofList [("x", .ofNat 3), ("missing", .boolean false)]]⟩ := by
  let condition : Expr := .binary .ne (.field "x") (.literal (.ofNat 2))
  let missing : Expr := .isNull (.field "x") false
  let exprs : List Expr := [.field "x", .aliased missing "missing"]
  let value (i : Nat) (e : Expr) : Value :=
    ((evaluate .builtin e i false).runIn numbersContext).toOption.getD .null
  have hlabels : Expr.LabelsDiffer (· ∈ exprs) :=
    Expr.labelsDiffer_of_nodup (missing :: exprs) (fun r => List.mem_cons_of_mem missing)
      (by simp [exprs, missing, Expr.parts, Expr.operands]) (by decide +kernel)
  have hfree : ∀ e ∈ [missing, .aliased missing "missing", .literal (.ofNat 2), .field "x",
      condition], e.AggregateFree Engine.builtin.functions := fun e =>
    .of_callee? _ (by simp [missing, condition, Expr.operands])
      (by simp [missing, condition, Expr.callee?])
  have htruth : ∀ i < 3, ((passes .builtin (some condition) i).runIn numbersContext).toOption =
      some (i != 1) := by decide +kernel
  have hvalue : ∀ i < 3, ∀ e ∈ exprs,
      (evaluate .builtin e i false).runIn numbersContext = .ok (value i e) := by
    intro i hi e he
    obtain rfl | rfl : e = .field "x" ∨ e = .aliased missing "missing" := List.mem_pair.mp he
    all_goals
      obtain rfl | rfl | rfl : i = 0 ∨ i = 1 ∨ i = 2 := by omega
      all_goals rfl
  have hitems : ∀ e, .expr e ∈ [SelectItem.wildcard, .expr (.aliased missing "missing")] →
      e.AggregateFree Engine.builtin.functions ∧ e.window? = none := by
    intro e he
    obtain rfl : e = .aliased missing "missing" := by simpa using he
    exact ⟨hfree _ (by simp), rfl⟩
  exact @execute_projection .builtin numbers (.factor (.table "t" none)) ["t"] numbersContext
    [.wildcard, .expr (.aliased missing "missing")] (some condition) exprs ["x", "missing"] (· != 1)
    value rfl (by simp [Source.conditions])
    (fun p hp => hfree p (by simp [← Option.mem_some_iff.mp hp, condition])) hitems rfl rfl hlabels
    (fun i hi => eq_ok_of_toOption (htruth i hi)) (fun i hi _ e he => hvalue i hi e he)
    fun h => absurd (h 0 (by decide)) (by decide)

/-- The row of the table of one number. -/
def numberContext : Context :=
  Context.after .builtin {} (.addView "t" ⟨["x"], #[.ofList [("x", .ofNat 1)]]⟩)

/-- The reciprocal of `x`, where Null counts as zero. -/
def reciprocal : Expr :=
  .aliased (.binary .div (.literal (.ofNat 1)) (.searchedCase (.branch (.isNull (.field "x") false)
    (.literal (.ofNat 0)) (.otherwise (.field "x"))))) "q"

/-- Although no row is kept, an item has to have a value for Null. -/
theorem not_forall_execute_projection : ¬ ∀ (tables : Tables) (source : Source)
    (aliases : List String) (c : Context) (items : List SelectItem) (condition : Option Expr)
    (exprs : List Expr) (names : List String) (truth : Nat → Bool) (value : Nat → Expr → Value),
    loadSource .builtin tables source {} = .ok aliases c →
    (∀ on ∈ source.conditions, on.AggregateFree Engine.builtin.functions) →
    (∀ p ∈ condition, p.AggregateFree Engine.builtin.functions) →
    (∀ e, .expr e ∈ items → e.AggregateFree Engine.builtin.functions ∧ e.window? = none) →
    (items.mapM c.itemExprs).map List.flatten = .ok exprs → columnNames exprs = .ok names →
    (∀ i < c.size, (passes .builtin condition i).runIn c = .ok (truth i)) →
    (∀ i < c.size, truth i = true → ∀ e ∈ exprs,
      (evaluate .builtin e i false).runIn c = .ok (value i e)) →
    execute .builtin tables (.select source { selecting items with condition := condition }) =
      .ok ⟨names, (((List.range c.size).filter truth).map fun i =>
        Labelled.ofList (names.zip (exprs.map (value i)))).toArray⟩ := by
  intro h
  let one : Expr := .literal (.ofNat 1)
  let zero : Expr := .literal (.ofNat 0)
  let missing : Expr := .isNull (.field "x") false
  let orZero : Expr := .searchedCase (.branch missing zero (.otherwise (.field "x")))
  have hfree : ∀ e ∈ [one, zero, .field "x", missing, orZero, .binary .div one orZero, reciprocal],
      e.AggregateFree Engine.builtin.functions := fun e =>
    .of_callee? _ (by simp [one, zero, missing, orZero, reciprocal, Expr.operands,
      Branches.operands]) (by simp [one, zero, missing, orZero, reciprocal, Expr.callee?])
  have htruth : ∀ i < 1, ((passes .builtin (some missing) i).runIn numberContext).toOption =
      some false := by decide +kernel
  have hfailed : (execute .builtin number (.select (.factor (.table "t" none))
      { selecting [.expr reciprocal] with condition := some missing })).toOption.isSome = false := by
    decide +kernel
  have hselected := h number (.factor (.table "t" none)) ["t"] numberContext [.expr reciprocal]
    (some missing) [reciprocal] ["q"] (fun _ => false) (fun _ _ => .null) rfl
    (by simp [Source.conditions]) (fun p hp => hfree p (by simp [← Option.mem_some_iff.mp hp]))
    (fun e he => by
      obtain rfl : e = reciprocal := by simpa using he
      exact ⟨hfree _ (by simp), rfl⟩)
    rfl rfl (fun i hi => eq_ok_of_toOption (htruth i hi)) (fun _ _ hi => absurd hi (by decide))
  rw [hselected] at hfailed
  cases hfailed

end Statement

end TableQuery
