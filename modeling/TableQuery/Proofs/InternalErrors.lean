/-
Errors that queries do not end with.

A query that has no result fails with an error that lies with it. It does not fail because a window was
not computed, because views have different counts of rows, because a function has given another count of
values than there are rows, or because no query is being executed. In rows without groups this takes that
windows are read where they were computed (`Clauses.ReadsWindows`); in groups they always are.

* `Step.safe_prepare` — conditions and groups leave rows without results of windows;
* `Statement.isInternal_execute` — queries whose windows stand where the parser puts them;
* `Statement.execute_not_internal` — queries that the parser accepts.
-/
import TableQuery.Proofs.DerivedTables
import TableQuery.Proofs.WindowPlaces
import TableQuery.Proofs.WindowReads

namespace TableQuery

/-! ### Rows before windows -/

/-- No row has the result of a window. -/
def Frame.Resultless (f : Frame) : Prop := ∀ label i, f.result? label i = none

theorem Frame.Resultless.agrees {f : Frame} (h : f.Resultless) : f.Agrees := by
  intro label i _ hi
  rw [h] at hi
  cases hi

theorem Frame.Resultless.take {f : Frame} (h : f.Resultless) (places : List Nat) :
    (f.take places).Resultless := by
  intro label i
  rw [result?_take]
  cases places[i]? with
  | none => rfl
  | some p => exact h label p

theorem Frame.Resultless.merged {f g : Frame} (h : f.Resultless) (hm : f.Merged g) : g.Resultless := by
  intro label i
  cases i with
  | zero => rw [hm.results, h]
  | succ i =>
    have hnone : g.rows[i + 1]? = none := Array.getElem?_eq_none (by
      have hsize : g.rows.size = 1 := hm.size
      omega)
    rw [result?, hnone]
    rfl

theorem Context.Bare.resultless {c : Context} (h : c.Bare) : c.frame.Resultless :=
  fun label i => h.state (f := (·.windows.get? label)) rfl i

theorem Context.Bare.frame_loose {c : Context} (h : c.Bare) : c.frame.Loose where
  group i := h.state rfl i
  keys i label := h.state (f := (·.keys.get? label)) rfl i

theorem Context.Loaded.fresh {c : Context} (h : c.Loaded) (hc : c.frame.Loose) :
    c.Fresh fun _ => False where
  loose := hc
  recalls := .of_forgotten h.forgotten hc.keys
  unseen := h.unseen
  aligned := h.aligned

namespace Step

variable {engine : Engine} {c : Context}

/-- A condition keeps rows without results of windows, which all are groups or none is. -/
theorem safe_filter (hr : engine.functions.Regular) {e : Expr} (he : e.WindowFree)
    (hc : c.frame.Resultless) (h : c.frame.InGroups ∨ (c.frame.Loose ∧ c.Loaded)) :
    Safe (filter engine e) c fun _ d => d.frame.Resultless ∧
      (c.frame.InGroups → d.frame.InGroups) ∧ (d.frame.InGroups ∨ d.frame.Loose) := by
  rw [filter]
  have hrows : Safe (rows fun i => (e.evaluator engine).holds engine i) c fun truths d =>
      truths.size ≤ d.size ∧ (d.frame = c.frame ∨ c.frame.Merged d.frame) := by
    rcases h with hgroups | ⟨hloose, hloaded⟩
    · refine (AlwaysSafe.rows fun i => alwaysSafe_holds hr he i).safe fun truths d hs => ?_
      obtain ⟨htouched, -, truth, -, rfl⟩ := (local_holds engine e).rows_of_ok
        (fun i hi => .inl (hgroups i hi)) hs
      exact ⟨by simp [htouched.size], .inl htouched.frame⟩
    · -- an aggregate in the condition may turn the rows into one group on the way
      have hstep := inStep_holds (L := fun _ => True) hr hloose he fun _ _ _ => trivial
      have hbefore := (hloaded.fresh hloose).before (L := fun _ => True) fun _ _ => id
      refine (hstep.safe_rows hloose hbefore).mono fun truths d hd => ?_
      rcases hd with ⟨hd, hsize⟩ | ⟨hm, hsize⟩
      · exact ⟨Nat.le_of_eq (hsize.trans (congrArg Frame.size hd).symm), .inl hd⟩
      · exact ⟨Nat.le_of_eq (hsize.trans hm.size.symm), .inr hm⟩
  refine hrows.bind fun truths d h' => .modify ?_
  obtain ⟨hsize, hd⟩ := h'
  have hp : ∀ p ∈ truePlaces truths, p < d.frame.size :=
    fun p hp => Nat.lt_of_lt_of_le (lt_size_of_mem_truePlaces hp) hsize
  have hleaves : c.frame.Leaves d.frame := by
    rcases hd with hd | hm
    · exact hd ▸ .refl _
    · exact .merged hm
  have hall := hleaves.trans (.take hp)
  have hresultless : d.frame.Resultless := by
    rcases hd with hd | hm
    · exact hd ▸ hc
    · exact hc.merged hm
  refine ⟨hresultless.take _, hall.inGroups, ?_⟩
  rcases h with hgroups | ⟨hloose, -⟩
  · exact .inl (hall.inGroups hgroups)
  · exact hall.loose hloose

/-- So does a condition that there may be. -/
theorem safe_condition (hr : engine.functions.Regular) {condition : Option Expr}
    (he : ∀ e ∈ condition, e.WindowFree) (hc : c.frame.Resultless)
    (h : c.frame.InGroups ∨ (c.frame.Loose ∧ c.Loaded)) :
    Safe (condition.forM (filter engine)) c fun _ d => d.frame.Resultless ∧
      (c.frame.InGroups → d.frame.InGroups) ∧ (d.frame.InGroups ∨ (d.frame.Loose ∧ d.Loaded)) := by
  cases condition with
  | none => exact .pure ⟨hc, id, h⟩
  | some e =>
    refine (safe_filter hr (he e rfl) hc h).of_eq_ok fun _ d hs ⟨hd, hgroups, hrows⟩ => ⟨hd, hgroups, ?_⟩
    rcases h with h | ⟨-, hloaded⟩
    · exact .inl (hgroups h)
    · exact hrows.imp_right fun hloose => ⟨hloose, loaded_filter e hloaded hs⟩

/-- Groups are rows without results of windows. -/
theorem resultless_groupBy (keys : List Expr) : Ensures (fun _ => True) (groupBy engine keys)
    fun _ c => c.frame.Resultless ∧ c.frame.InGroups := by
  rw [groupBy]
  refine (Ensures.trivial _).bind fun buckets => (Ensures.trivial _).bind fun groups => ?_
  refine .get_bind fun c _ => (Ensures.trivial _).bind fun columns => ?_
  refine Ensures.bind (Q := fun _ c => c.frame.Resultless ∧ c.frame.InGroups) (.set _ ?_)
    fun _ => .pure _ fun _ h => h
  have hrows := rows_collapseTo c columns buckets groups
  constructor
  · intro label i
    show ((c.collapseTo columns buckets groups).frame.rows[i]?).bind _ = none
    rw [hrows]
    simp [Option.bind_map, Function.comp_def]
  · intro i hi
    rw [Frame.size] at hi
    rw [Array.getElem?_eq_getElem hi]
    simp [hrows]

/-- The rows that are selected from have no results of windows yet. If they are no groups, nothing is
known about them. -/
theorem safe_prepare (hr : engine.functions.Regular) {clauses : Clauses}
    (hclauses : clauses.Of Expr.WindowFree) (hbare : c.Bare) (hc : c.Loaded) :
    Safe (prepare engine clauses) c fun _ d => d.frame.Resultless ∧
      (d.frame.InGroups ∨ (clauses.groupBy = [] ∧ d.Fresh fun _ => False)) := by
  have hcondition := safe_condition hr hclauses.condition hbare.resultless
    (.inr ⟨hbare.frame_loose, hc⟩)
  by_cases hgroups : clauses.groupBy = []
  · rw [prepare, hgroups]
    refine hcondition.bind fun _ d hd => ?_
    exact (safe_condition hr hclauses.having hd.1 hd.2.2).mono fun _ _ he =>
      ⟨he.1, he.2.2.imp_right fun h => ⟨rfl, h.2.fresh h.1⟩⟩
  · have hnonempty : (!clauses.groupBy.isEmpty) = true := by simpa using hgroups
    rw [prepare, if_pos hnonempty]
    refine hcondition.bind fun _ d _ => ?_
    have hgroup := ((alwaysSafe_groupBy hr hclauses.groupBy).safe (c := d) fun _ _ hs =>
      resultless_groupBy clauses.groupBy trivial hs).discard
    refine hgroup.bind fun _ e he => ?_
    exact (safe_condition hr hclauses.having he.1 (.inl he.2)).mono
      fun _ _ h => ⟨h.1, .inl (h.2.1 he.2)⟩

/-! ### What is selected -/

theorem isInternal_distinctRows (hr : engine.functions.Regular) (v : View) {order : List OrderItem}
    (horder : ∀ i ∈ order, i.expr.Windowed Expr.WindowFree) (bounds : Option Limit)
    {e : ExecutionError} (h : distinctRows engine v order bounds = .error e) : e.isInternal = false := by
  rw [distinctRows] at h
  have hkeys : ∀ k ∈ v.fields.map Expr.field, k.WindowFree := by
    intro k hk
    obtain ⟨name, -, rfl⟩ := List.mem_map.mp hk
    exact .field name
  refine Safe.runIn_error (Q := fun _ _ => True) ?_ h
  refine Safe.bind (Q := fun _ _ => True) (.ok (addView_new distinctAlias v) trivial) fun _ c _ => ?_
  have hgroup := ((alwaysSafe_groupBy hr hkeys).safe (c := c) fun _ _ hs =>
    resultless_groupBy (v.fields.map Expr.field) trivial hs).discard
  refine hgroup.bind fun _ d ⟨hd, hgroups⟩ => ?_
  refine safe_selectAll hr (fun i hi => ?_) horder hd.agrees (.inl hgroups) bounds
  obtain ⟨k, hk, rfl⟩ := List.mem_map.mp hi
  exact .expr (.plain (hkeys k hk))

end Step

/-! ### Columns that stars stand for -/

/-- The expression that an item is, if it is one. -/
def SelectItem.expr? : SelectItem → Option Expr
  | .expr e => some e
  | _ => none

/-- The second list is the first with columns between its expressions. -/
inductive Expr.WithColumns : List Expr → List Expr → Prop
  | nil : WithColumns [] []
  | expr (e : Expr) {es es' : List Expr} : WithColumns es es' → WithColumns (e :: es) (e :: es')
  | column {k : Expr} {es es' : List Expr} : k.IsColumn → WithColumns es es' → WithColumns es (k :: es')

theorem Expr.IsColumn.window? {k : Expr} (h : k.IsColumn) : k.window? = none := by
  obtain ⟨name, rfl⟩ | ⟨table, name, rfl⟩ := h <;> rfl

theorem Expr.IsColumn.partition {k : Expr} (h : k.IsColumn) : k.partition = [] := by
  obtain ⟨name, rfl⟩ | ⟨table, name, rfl⟩ := h <;> rfl

theorem Expr.IsColumn.aggregateFree {k : Expr} (h : k.IsColumn) (r : Registry) : k.AggregateFree r := by
  obtain ⟨name, rfl⟩ | ⟨table, name, rfl⟩ := h
  · exact .of_field r name
  · exact .of_qualified r table name

/-- A column has no alias. -/
theorem Expr.IsColumn.body_ne {k e : Expr} {name : String} (h : k.IsColumn) :
    k.body ≠ .aliased e name := by
  obtain ⟨name, rfl⟩ | ⟨table, name, rfl⟩ := h <;> exact nofun

/-- Nothing is remembered for a column. -/
theorem Expr.IsColumn.labels {k : Expr} (h : k.IsColumn) (known : String → Prop) : k.Labels known := by
  intro q hq hremembered
  obtain ⟨name, rfl⟩ | ⟨table, name, rfl⟩ := h
  all_goals
    cases hq with
    | self => cases hremembered
    | operand hp _ => cases hp

namespace Expr.WithColumns

variable {es es' : List Expr} {order : List OrderItem} {r : Registry} {known : String → Prop}
  {label : String}

theorem append (h : WithColumns es es') {ks : List Expr} (hks : ∀ k ∈ ks, k.IsColumn) :
    WithColumns es (ks ++ es') := by
  induction ks with
  | nil => exact h
  | cons k ks ih =>
    exact .column (hks k List.mem_cons_self) (ih fun k' hk' => hks k' (List.mem_cons_of_mem k hk'))

/-- What items stand for are the expressions among them, and columns. -/
theorem of_items {c : Context} {items : List SelectItem} {l : List (List Expr)}
    (h : items.mapM c.itemExprs = .ok l) : WithColumns (items.filterMap SelectItem.expr?) l.flatten := by
  have hcolumns : ∀ table v, ∀ k ∈ c.viewColumns table v, k.IsColumn := by
    intro table v k hk
    obtain ⟨name, -, rfl⟩ := List.mem_map.mp hk
    split
    · exact .inl ⟨name, rfl⟩
    · exact .inr ⟨table, name, rfl⟩
  induction items generalizing l with
  | nil =>
    cases h
    exact .nil
  | cons item items ih =>
    obtain ⟨es, l', hitem, hitems, rfl⟩ := Step.mapM_cons_eq_ok h
    have hrest := ih hitems
    rw [List.flatten_cons]
    cases item with
    | expr e =>
      cases hitem
      exact .expr e hrest
    | wildcard =>
      cases hitem
      refine hrest.append fun k hk => ?_
      obtain ⟨⟨table, v⟩, -, hk⟩ := List.mem_flatMap.mp hk
      exact hcolumns table v k hk
    | tableWildcard table =>
      rw [Context.itemExprs] at hitem
      split at hitem
      · cases hitem
        exact hrest.append (hcolumns _ _)
      · cases hitem

variable (h : WithColumns es es')
include h

theorem mem_or_isColumn {e : Expr} (he : e ∈ es') : e ∈ es ∨ e.IsColumn := by
  induction h with
  | nil => cases he
  | expr e' _ ih =>
    rcases List.mem_cons.mp he with rfl | he
    · exact .inl List.mem_cons_self
    · exact (ih he).imp_left (List.mem_cons_of_mem e')
  | column hk _ ih =>
    rcases List.mem_cons.mp he with rfl | he
    · exact .inr hk
    · exact ih he

theorem sortedBy {e : Expr} (he : e.SortedBy es' order) : e.SortedBy es order := by
  obtain ⟨item, hitem, he | ⟨name, hbody, s, hs, halias⟩⟩ := he
  · exact ⟨item, hitem, .inl he⟩
  · rcases h.mem_or_isColumn hs with hs | hs
    · exact ⟨item, hitem, .inr ⟨name, hbody, s, hs, halias⟩⟩
    · exact absurd halias hs.body_ne

theorem keyLabel (hlabel : KeyLabel es' order label) : KeyLabel es order label := by
  obtain ⟨w, hw, p, hp, hq⟩ := hlabel
  refine ⟨w, ?_, p, hp, hq⟩
  rcases hw with hw | hw
  · refine .inl ((h.mem_or_isColumn hw).resolve_right fun hcolumn => ?_)
    rw [hcolumn.partition] at hp
    cases hp
  · exact .inr (h.sortedBy hw)

theorem orderLabel (hlabel : OrderLabel es' order label) : OrderLabel es order label := by
  obtain ⟨e, he | ⟨w, hw, hp⟩, hq⟩ := hlabel
  · exact ⟨e, .inl (h.sortedBy he), hq⟩
  · refine ⟨e, .inr ⟨w, ?_, hp⟩, hq⟩
    rcases hw with hw | hw
    · refine .inl ((h.mem_or_isColumn hw).resolve_right fun hcolumn => ?_)
      rw [hcolumn.partition] at hp
      cases hp
    · exact .inr (h.sortedBy hw)

/-- What is not found among columns is found in the same place. -/
theorem findSome?_eq {α : Type} {f : Expr → Option α} (hf : ∀ k : Expr, k.IsColumn → f k = none) :
    es'.findSome? f = es.findSome? f := by
  induction h with
  | nil => rfl
  | expr e _ ih => rw [List.findSome?_cons, List.findSome?_cons, ih]
  | column hk _ ih => rw [List.findSome?_cons, hf _ hk, ih]

/-- Columns are not what names to sort by stand for. -/
theorem orderItem_eq (c : Context) (item : OrderItem) : c.orderItem es' item = c.orderItem es item := by
  rw [Context.orderItem, Context.orderItem]
  split
  · rw [h.findSome?_eq]
    rintro k (⟨name, rfl⟩ | ⟨table, name, rfl⟩) <;> rfl
  · rfl

theorem windowsFirst (hes : WindowsFirst r es) : WindowsFirst r es' := by
  induction h with
  | nil => exact hes
  | expr e h ih =>
    cases hes with
    | plain hes =>
      refine .plain fun e' he' => ?_
      rcases (WithColumns.expr e h).mem_or_isColumn he' with he' | he'
      · exact hes e' he'
      · exact he'.window?
    | cons hfree hes => exact .cons hfree (ih hes)
  | column hk _ ih => exact .cons (hk.aggregateFree r) (ih hes)

theorem labelsFresh (hes : LabelsFresh known es) : LabelsFresh known es' := by
  intro e he hw
  rcases h.mem_or_isColumn he with he | he
  · intro q hq hremembered
    obtain ⟨hknown, hwindows⟩ := hes e he hw q hq hremembered
    refine ⟨hknown, fun u hu w huw => ?_⟩
    rcases h.mem_or_isColumn hu with hu | hu
    · exact hwindows u hu w huw
    · rw [hu.window?] at huw
      cases huw
  · exact he.labels _

theorem readsWindows (hes : ReadsWindows r known es) : ReadsWindows r known es' where
  keys e he := (h.mem_or_isColumn he).elim (hes.keys e) fun he => .inl he.window?
  results := hes.results.imp h.windowsFirst h.labelsFresh

/-- Columns make no difference to windows. -/
theorem readsInOrder (hes : ReadsInOrder r es order) : ReadsInOrder r es' order where
  sorted c := by
    have hitems : order.map (c.orderItem es') = order.map (c.orderItem es) :=
      List.map_congr_left fun item _ => h.orderItem_eq c item
    rw [hitems]
    exact (hes.sorted c).anti fun _ => h.keyLabel
  selected := h.readsWindows (hes.selected.anti fun _ => h.orderLabel)

end Expr.WithColumns

/-! ### Queries that read their windows -/

/-- The expressions that are selected, as they are written. -/
def Clauses.exprs (c : Clauses) : List Expr := c.items.filterMap SelectItem.expr?

/-- If rows are not grouped by keys, windows are read where they were computed. Distinct rows are grouped
before they are sorted. -/
def Clauses.ReadsWindows (r : Registry) (c : Clauses) : Prop :=
  c.groupBy = [] → ReadsInOrder r c.exprs (Statement.firstOrder c)

mutual

/-- Windows are read where they were computed, in the query and in those in its source. -/
def Statement.ReadsWindows (r : Registry) : Statement → Prop
  | .select source clauses => source.ReadsWindows r ∧ clauses.ReadsWindows r

/-- Windows are read where they were computed in the queries in the source. -/
def Source.ReadsWindows (r : Registry) : Source → Prop
  | .nothing => True
  | .factor f => f.ReadsWindows r
  | .leftJoin left right _ => left.ReadsWindows r ∧ right.ReadsWindows r

/-- Windows are read where they were computed in the query that the factor is. -/
def Factor.ReadsWindows (r : Registry) : Factor → Prop
  | .table .. => True
  | .derived query _ => query.ReadsWindows r

end

theorem Step.safe_select {engine : Engine} (hr : engine.functions.Regular) {clauses : Clauses}
    (hclauses : clauses.Of Expr.WindowFree) (hreads : clauses.ReadsWindows engine.functions)
    {c : Context} (hc : c.frame.Resultless)
    (h : c.frame.InGroups ∨ (clauses.groupBy = [] ∧ c.Fresh fun _ => False)) :
    Safe (Step.select engine clauses.items clauses.quantifier clauses.orderBy clauses.limit) c
      fun _ _ => True := by
  have hlist : c.frame.InGroups ∨ (c.Fresh (fun _ => False) ∧ ∀ l,
      clauses.items.mapM c.itemExprs = .ok l →
        ReadsInOrder engine.functions l.flatten (Statement.firstOrder clauses)) :=
    h.imp_right fun ⟨hgroups, hfresh⟩ =>
      ⟨hfresh, fun l hl => (Expr.WithColumns.of_items hl).readsInOrder (hreads hgroups)⟩
  cases hq : clauses.quantifier with
  | none =>
    rw [Statement.firstOrder, hq] at hlist
    exact safe_selectAll hr hclauses.items hclauses.orderBy hc.agrees hlist clauses.limit
  | some q =>
    cases q with
    | all => exact .throw rfl
    | distinct =>
      rw [Statement.firstOrder, hq] at hlist
      -- rows are put in order only when duplicates are gone
      refine (safe_selectAll hr hclauses.items (fun _ hi => by cases hi) hc.agrees hlist none).bind
        fun v d _ => ?_
      exact .lift (fun e he => isInternal_distinctRows hr v hclauses.orderBy clauses.limit he)
        fun _ _ => trivial

namespace Statement

open Step

variable {engine : Engine}

mutual

/-- The errors of a query lie with the query. -/
theorem isInternal_execute (hr : engine.functions.Regular) (tables : Tables) : ∀ s : Statement,
    s.Of Expr.WindowFree → s.ReadsWindows engine.functions →
      ∀ e, s.execute engine tables = .error e → e.isInternal = false
  | .select source clauses, hs, hreads, e, he => by
    rw [Of] at hs
    rw [ReadsWindows] at hreads
    rw [execute_select] at he
    refine Safe.runIn_error (Q := fun _ _ => True) ?_ he
    have hload := ((safe_loadSource hr tables source hs.1 hreads.1).of_eq_ok fun _ d hd _ =>
      And.intro (bare_loadSource engine tables source rfl hd)
        (loaded_loadSource engine tables source rfl hd)).discard
    refine hload.bind fun _ c ⟨hbare, hloaded⟩ => ?_
    refine (safe_prepare hr hs.2 hbare hloaded).bind fun _ d ⟨hd, hrows⟩ => ?_
    exact safe_select hr hs.2 hreads.2 hd hrows

theorem safe_loadSource (hr : engine.functions.Regular) (tables : Tables) : ∀ source : Source,
    source.Of Expr.WindowFree → source.ReadsWindows engine.functions →
      Safe (loadSource engine tables source) {} fun _ _ => True
  | .nothing, _, _ => by
    rw [loadSource]
    exact .ok rfl trivial
  | .factor f, hf, hreads => by
    rw [Source.Of] at hf
    rw [Source.ReadsWindows] at hreads
    rw [loadSource]
    refine Safe.bind (Q := fun _ d => d = {})
      (.lift (isInternal_loadFactor hr tables f hf hreads) fun _ _ => rfl) fun v d hd => ?_
    subst hd
    exact Safe.bind (Q := fun _ _ => True) (.ok (addView_new f.name v) trivial) fun _ _ _ => .pure trivial
  | .leftJoin left right on, h, hreads => by
    rw [Source.Of] at h
    rw [Source.ReadsWindows] at hreads
    rw [loadSource]
    refine (safe_loadSource hr tables left h.2.1 hreads.1).bind fun aliases c _ => ?_
    refine Safe.bind (Q := fun _ _ => True)
      (.lift (isInternal_loadFactor hr tables right h.2.2.1 hreads.2) fun _ _ => trivial) fun v d _ => ?_
    exact alwaysSafe_leftJoin hr h.2.2.2 aliases right.name v d

theorem isInternal_loadFactor (hr : engine.functions.Regular) (tables : Tables) : ∀ f : Factor,
    f.Of Expr.WindowFree → f.ReadsWindows engine.functions →
      ∀ e, loadFactor engine tables f = .error e → e.isInternal = false
  | .table name _, _, _, e, he => by
    rw [loadFactor] at he
    split at he
    · cases he
    · cases he
      rfl
  | .derived query _, hf, hreads, e, he => by
    rw [Factor.Of] at hf
    rw [Factor.ReadsWindows] at hreads
    rw [loadFactor] at he
    exact isInternal_execute hr tables query hf hreads e he

end

/-! ### Two queries with windows -/

/-- The query selects numbers of the rows of a table in the order of a field, and a count of them. -/
def numbersAndCounts : Statement → Bool
  | .select (.factor (.table _ _)) ⟨none, [.expr (.aliased (.window (.call _ none []) [.literal _]
      [.mk (.field _) _] _) _), .expr (.aliased (.callStar _) _)], _, _, _, [], _⟩ => true
  | _ => false

/-- The numbers are read before the rows become one group. -/
theorem readsWindows_of_numbersAndCounts {s : Statement} (h : s.numbersAndCounts = true) (r : Registry) :
    s.ReadsWindows r := by
  rw [numbersAndCounts.eq_def] at h
  split at h
  · rename_i v x direction extent _ _ _ _ _ _ _
    have hwindow : ∀ function name, (Expr.aliased (.window function [.literal v]
        [.mk (.field x) direction] extent) name).Unaggregated r := fun function name =>
      .aliased (.window (List.forall_mem_singleton.mpr (.of_literal r v))
        (List.forall_mem_singleton.mpr (.plain (.field x) (.of_field r x))))
    rw [ReadsWindows, Source.ReadsWindows, Factor.ReadsWindows]
    refine ⟨trivial, fun _ => ⟨fun _ => ⟨List.forall_mem_nil _, .inl (.plain (List.forall_mem_nil _))⟩, ?_⟩⟩
    refine ⟨List.forall_mem_cons.mpr ⟨.inr (hwindow _ _), ?_⟩, .inl ?_⟩
    · exact List.forall_mem_singleton.mpr (.inl rfl)
    · exact .cons (hwindow _ _).aggregateFree (.plain (List.forall_mem_singleton.mpr rfl))
  · cases h

/-- Whether the query fails with an error that does not lie with it. -/
def failsInternally (tables : Tables) (s : Statement) : Bool :=
  match s.execute .builtin tables with
  | .error e => e.isInternal
  | .ok _ => false

theorem failsInternally_iff {tables : Tables} {s : Statement} : s.failsInternally tables = true ↔
    ∃ e, s.execute .builtin tables = .error e ∧ e.isInternal = true := by
  rw [failsInternally]
  cases s.execute .builtin tables <;> simp

/-! ### Queries that are parsed -/

/-- A query that the parser accepts has no result only for an error that lies with it, and it is always
executed in a context. -/
theorem execute_not_internal {text : String} {s : Statement} (hparse : Statement.parse text = .ok s)
    (hreads : s.ReadsWindows Engine.builtin.functions) (tables : Tables) (stack : List Context) :
    (∀ e, s.execute .builtin tables = .error e → e.isInternal = false) ∧
      ∀ e below, s.executeOn .builtin tables stack = .error e below →
        ∃ e', e = .execution e' ∧ e'.isInternal = false := by
  have hexecute := isInternal_execute Registry.regular_builtin tables s (of_parse hparse) hreads
  refine ⟨hexecute, fun e below he => ?_⟩
  rw [executeOn_eq] at he
  cases hresult : s.execute .builtin tables with
  | ok v =>
    rw [hresult] at he
    cases he
  | error e' =>
    rw [hresult] at he
    cases he
    exact ⟨e', rfl, hexecute e' hresult⟩

/-- Rows with their numbers, read before they become one group. -/
theorem execute_not_internal_numbered : ∃ s,
    Statement.parse "select row_number() over (order by x) as n, count(*) as c from t" = .ok s ∧
      s.ReadsWindows Engine.builtin.functions ∧ ∀ tables stack,
        (∀ e, s.execute .builtin tables = .error e → e.isInternal = false) ∧
          ∀ e below, s.executeOn .builtin tables stack = .error e below →
            ∃ e', e = .execution e' ∧ e'.isInternal = false := by
  have hshape : ((Statement.parse
      "select row_number() over (order by x) as n, count(*) as c from t").toOption.any
        numbersAndCounts) = true := by decide +kernel
  cases hparse : Statement.parse
      "select row_number() over (order by x) as n, count(*) as c from t" with
  | error e =>
    rw [hparse] at hshape
    cases hshape
  | ok s =>
    rw [hparse] at hshape
    have hreads := readsWindows_of_numbersAndCounts hshape Engine.builtin.functions
    exact ⟨s, rfl, hreads, fun tables stack => execute_not_internal hparse hreads tables stack⟩

/-- Rows that are sorted for a window by a count have become one row, so that the others get no result. -/
theorem not_forall_execute_not_internal : ¬ ∀ (text : String) (s : Statement),
    Statement.parse text = .ok s → ∀ (tables : Tables) e, s.execute .builtin tables = .error e →
      e.isInternal = false := by
  intro hall
  have hfails : ((Statement.parse
      "select row_number() over (order by count(*)) as n from t").toOption.any
        (failsInternally numbers)) = true := by decide +kernel
  cases hparse : Statement.parse "select row_number() over (order by count(*)) as n from t" with
  | error e =>
    rw [hparse] at hfails
    cases hfails
  | ok s =>
    rw [hparse] at hfails
    obtain ⟨e, he, hinternal⟩ := failsInternally_iff.mp hfails
    rw [hall _ s hparse numbers e he] at hinternal
    cases hinternal

end Statement

end TableQuery
