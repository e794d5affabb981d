/-
What a window leaves alone.

Rows are partitioned where they stand, and each partition is sorted and evaluated in a context of its own. So a
window notes in the rows only their partitions and, under its own label, the results that are put back. As
long as no aggregate takes rows away while a partition is sorted, its places are all there afterwards, and
since the partitions hold every row, every row has a result.

* `Context.Undisturbed` — the contexts before and after a window;
* `Step.ensures_undisturbed` — whatever a window is computed from, the rows are undisturbed;
* `Step.exists_mem_of_partitionResults` — a partition has a result for each of its places;
* `Step.windowResults_undisturbed` — every row has a result, and the next time nothing is computed.
-/
import TableQuery.Proofs.Extents

namespace TableQuery

/-- The second context has the rows, views, groups, keys and fields of the first, and the same results under
all labels but one. Partitions and results under this label may be new, and more may be remembered. -/
structure Context.Undisturbed (label : String) (c d : Context) : Prop where
  size : d.size = c.size
  views : d.frame.views = c.frame.views
  group : ∀ i : Nat, (d.frame.rows[i]?).map (·.group) = (c.frame.rows[i]?).map (·.group)
  keys : ∀ i : Nat, (d.frame.rows[i]?).map (·.keys) = (c.frame.rows[i]?).map (·.keys)
  results : ∀ other, other ≠ label → ∀ i, d.frame.result? other i = c.frame.result? other i
  hasSource : d.hasSource = c.hasSource
  direct : d.direct = c.direct
  ambiguous : d.ambiguous = c.ambiguous
  collapsed : d.collapsed = c.collapsed
  grouped : d.grouped = c.grouped
  sourceEmpty : d.sourceEmpty = c.sourceEmpty
  emptyGroup : d.emptyGroup = c.emptyGroup

namespace Context.Undisturbed

variable {label : String} {c d e : Context}

theorem refl (label : String) (c : Context) : c.Undisturbed label c :=
  ⟨rfl, rfl, fun _ => rfl, fun _ => rfl, fun _ _ _ => rfl, rfl, rfl, rfl, rfl, rfl, rfl, rfl⟩

theorem trans (s : c.Undisturbed label d) (t : d.Undisturbed label e) : c.Undisturbed label e where
  size := t.size.trans s.size
  views := t.views.trans s.views
  group i := (t.group i).trans (s.group i)
  keys i := (t.keys i).trans (s.keys i)
  results other hne i := (t.results other hne i).trans (s.results other hne i)
  hasSource := t.hasSource.trans s.hasSource
  direct := t.direct.trans s.direct
  ambiguous := t.ambiguous.trans s.ambiguous
  collapsed := t.collapsed.trans s.collapsed
  grouped := t.grouped.trans s.grouped
  sourceEmpty := t.sourceEmpty.trans s.sourceEmpty
  emptyGroup := t.emptyGroup.trans s.emptyGroup

/-- What is noted about rows disturbs nothing but the results under a label. -/
theorem of_noted {f : Frame} (hnoted : c.frame.Noted (fun _ => True) f)
    (hresults : ∀ other, other ≠ label → ∀ i, f.result? other i = c.frame.result? other i) :
    c.Undisturbed label { c with frame := f } :=
  ⟨hnoted.size, hnoted.views, hnoted.group, hnoted.keys, hresults, rfl, rfl, rfl, rfl, rfl, rfl, rfl⟩

theorem note (label : String) (c : Context) (sawPlainColumn : Bool) :
    c.Undisturbed label { c with sawPlainColumn := sawPlainColumn } :=
  ⟨rfl, rfl, fun _ => rfl, fun _ => rfl, fun _ _ _ => rfl, rfl, rfl, rfl, rfl, rfl, rfl, rfl⟩

/-- A look at rows disturbs nothing. -/
theorem of_touched {rows : Nat → Prop} (t : c.Touched rows d) (label : String) : c.Undisturbed label d where
  size := congrArg Frame.size t.frame
  views := congrArg Frame.views t.frame
  group i := congrArg (fun f : Frame => (f.rows[i]?).map (·.group)) t.frame
  keys i := congrArg (fun f : Frame => (f.rows[i]?).map (·.keys)) t.frame
  results other _ i := congrArg (fun f : Frame => f.result? other i) t.frame
  hasSource := t.hasSource
  direct := t.direct
  ambiguous := t.ambiguous
  collapsed := t.collapsed
  grouped := t.grouped
  sourceEmpty := t.sourceEmpty
  emptyGroup := t.emptyGroup

theorem inGroups (h : c.Undisturbed label d) (hc : c.frame.InGroups) : d.frame.InGroups :=
  hc.congr h.size h.group

end Context.Undisturbed

namespace Step

open Context

variable {engine : Engine} {c d : Context} {w : Expr.WindowParts} {p : Expr.CallParts} {g : Function}
  {label : String}

/-! ### What is left alone -/

/-- Rows are partitioned where they stand. -/
theorem ensures_undisturbed_partitionBy {keys : List Expr}
    (hlook : c.frame.InGroups ∨ ∀ k ∈ keys, k.AggregateFree engine.functions) (label : String) :
    Ensures (c.Undisturbed label) (partitionBy engine keys) fun _ => c.Undisturbed label := by
  intro c₁ groups d hc h
  obtain ⟨key, c₂, -, -, t, rfl⟩ :=
    exists_of_partitionBy_eq_ok (fun i hi => hlook.imp_left fun hgroups => hc.inGroups hgroups i hi) h
  have hpartitions : c₂.Undisturbed label { c₂ with
      frame := groups.foldl (fun f g => g.members.foldl (fun f i =>
        f.modifyRow i fun r => { r with partition := some g.frame }) f) c₂.frame } :=
    .of_noted (.partitions (fun _ _ => trivial) c₂.frame) fun other _ i =>
      Frame.result?_partitions groups c₂.frame other i
  exact ((hc.trans (.of_touched t label)).trans hpartitions).trans (.note label _ false)

/-- Results disturb only the results under their label. -/
theorem ensures_undisturbed_putResults (g : Group) (results : List (Nat × Value)) :
    Ensures (c.Undisturbed label) (putResults label g results) fun _ => c.Undisturbed label :=
  .modify _ fun d hd => hd.trans (.of_noted (.results label g results d.frame)
    fun _ hne i => Frame.result?_foldl_noteResult_of_ne hne g.members results d.frame i)

theorem ensures_undisturbed
    (hlook : c.frame.InGroups ∨ ∀ k ∈ w.partition, k.AggregateFree engine.functions)
    (sort : Step SortOutcome) (label : String) :
    Ensures (c.Undisturbed label) (windowResults engine sort w label) fun _ => c.Undisturbed label :=
  ensures_windowResults ensures_undisturbed_putResults (ensures_undisturbed_partitionBy hlook label) sort

/-! ### The results of a partition -/

/-- Sorting gives each row a place, unless an aggregate takes rows away. -/
theorem perm_of_sortRows {items : List OrderItem} {sorted : SortOutcome}
    (hlook : ∀ i < c.size, c.InGroup i ∨ ∀ e ∈ items.map OrderItem.expr, e.AggregateFree engine.functions)
    (h : sortRows engine items c = .ok sorted d) : sorted.permutation.Perm (List.range c.size) := by
  obtain ⟨values, e, hrows, -⟩ := exists_of_bind_eq_ok (show (rows _ >>= _) c = .ok sorted d from h)
  obtain ⟨-, -, key, hkey, -⟩ := (local_values engine (items.map OrderItem.expr) false).rows_of_ok hlook hrows
  obtain ⟨c', -, -, hsort⟩ := sortRows_of_values hlook hkey rfl
  cases h.symm.trans hsort
  exact sortPlaces_perm _ _ _

theorem perm_of_sortedPartition {f : Frame} {items : List OrderItem} {sorted : SortOutcome}
    (hlook : f.InGroups ∨ Unaggregated engine items)
    (h : sortedPartition engine items f.size (.ofFrame f) = .ok sorted d) :
    sorted.permutation.Perm (List.range f.size) := by
  rw [sortedPartition] at h
  split at h
  · cases h
    exact .refl _
  · obtain ⟨⟨⟩, s, hwindows, hsort⟩ :=
      exists_of_bind_eq_ok (show (computeOrderWindows engine items >>= _) _ = .ok sorted d from h)
    -- windows among the items note their results, and all rows are still there to be sorted
    have hnoted := noted_computeOrderWindows hlook hwindows
    have hperm := perm_of_sortRows (fun i hi => hlook.imp
      (fun hgroups => hgroups.noted hnoted i hi) fun hfree => hfree.aggregateFree) hsort
    rwa [show s.size = f.size from hnoted.size] at hperm

/-- There are as many values as rows. -/
theorem length_functionValues {keys : List (List Value)} {size : Nat} {values : List Value}
    (hg : ∀ f, g ≠ .scalar f) (h : (functionValues engine g p w keys size).runIn d = .ok values) :
    values.length = size := by
  cases g with
  | scalar f => exact absurd rfl (hg f)
  | aggregate f =>
    rw [functionValues] at h
    cases hx : w.extent.isWhole with
    | true =>
      rw [runIn_aggregateWindow_whole hx] at h
      cases hvalue : aggregateOver p.name f (fun i => Evaluator.values engine
        (Expr.evaluators engine p.arguments) i true) p.quantifier d.frame with
      | error e =>
        rw [hvalue] at h
        cases h
      | ok v =>
        rw [hvalue] at h
        cases h
        exact List.length_replicate
    | false =>
      rw [runIn_aggregateWindow hx] at h
      obtain ⟨value, -, rfl⟩ := exists_of_mapM_eq_ok h
      simp
  | window f =>
    obtain ⟨e, h⟩ := runIn_eq_ok.mp h
    rw [functionValues, functionWindow] at h
    obtain ⟨tuples, d₁, -, h⟩ := exists_of_bind_eq_ok h
    obtain ⟨found, d₂, -, h⟩ := exists_of_bind_eq_ok h
    split at h
    · rename_i hlength
      cases h
      exact hlength
    · cases h

/-- Each place of a partition has a result. -/
theorem exists_mem_of_partitionResults {f : Frame} {found : List (Nat × Value)}
    (hlook : f.InGroups ∨ Unaggregated engine w.order) (hg : ∀ f, g ≠ .scalar f)
    (h : (partitionResults engine (orderBy engine w.order) g p w).runIn (.ofFrame f) = .ok found)
    {place : Nat} (hplace : place < f.size) : ∃ v, (place, v) ∈ found := by
  obtain ⟨d, hresults⟩ := runIn_eq_ok.mp h
  rw [partitionResults_apply, size_ofFrame] at hresults
  obtain ⟨sorted, d₁, hsorted, hresults⟩ := exists_of_bind_eq_ok hresults
  obtain ⟨values, d₂, hvalues, hresults⟩ := exists_of_bind_eq_ok hresults
  cases hresults
  have hperm := perm_of_sortedPartition hlook hsorted
  have hlength : sorted.permutation.length = values.length := by
    rw [hperm.length_eq, List.length_range, length_functionValues hg (runIn_eq_ok.mpr ⟨_, hvalues⟩)]
  -- the value for a place stands beside it in the sorted order
  obtain ⟨k, hk, rfl⟩ := List.getElem_of_mem (hperm.mem_iff.mpr (List.mem_range.mpr hplace))
  exact ⟨values[k], List.mem_iff_getElem.mpr ⟨k, by simpa [← hlength] using hk, List.getElem_zip⟩⟩

/-! ### The results of all rows -/

/-- Once results are put into the rows of all groups, there were results for each group. -/
theorem exists_of_forM_putResults {groups : List Group}
    {results : Group → Except ExecutionError (List (Nat × Value))}
    (h : (groups.forM fun g => do putResults label g (← lift (results g))) c = .ok ⟨⟩ d) :
    ∀ g ∈ groups, ∃ found, results g = .ok found := by
  induction groups generalizing c with
  | nil => simp
  | cons g groups ih =>
    obtain ⟨⟨⟩, c₁, hfirst, hrest⟩ := exists_of_bind_eq_ok
      (show ((do putResults label g (← lift (results g))) >>= fun _ => groups.forM _) c = .ok ⟨⟩ d from h)
    obtain ⟨found, c₂, hfound, -⟩ := exists_of_bind_eq_ok hfirst
    exact List.forall_mem_cons.mpr ⟨⟨found, (lift_eq_ok hfound).1⟩, ih hrest⟩

/-- A window that was not there has a function, and the rows have keys. -/
theorem exists_of_windowResults {sort : Step SortOutcome}
    (hlook : ∀ i < c.size, c.InGroup i ∨ ∀ k ∈ w.partition, k.AggregateFree engine.functions)
    (hsize : c.size ≠ 0) (hnone : c.frame.result? label 0 = none)
    (h : windowResults engine sort w label c = .ok ⟨⟩ d) :
    ∃ p f key, windowFunction engine w = .ok (p, f) ∧ Keyed engine w.partition key c := by
  rw [windowResults_apply sort hsize hnone] at h
  obtain ⟨⟨p, f⟩, c₁, hfunction, hrest⟩ := exists_of_bind_eq_ok h
  obtain ⟨groups, c₂, hpartition, -⟩ := exists_of_bind_eq_ok hrest
  obtain ⟨hw, rfl⟩ := lift_eq_ok hfunction
  obtain ⟨key, -, hkeyed, -⟩ := exists_of_partitionBy_eq_ok hlook hpartition
  exact ⟨p, f, key, hw, hkeyed⟩

/-- A window that is there in all rows is not computed again. -/
theorem windowResults_of_hasResults (h : c.frame.HasResults label) (sort : Step SortOutcome) :
    windowResults engine sort w label c = .ok ⟨⟩ c := by
  rw [windowResults, get_bind]
  cases hrow : c.frame.rows[0]? with
  | none => rfl
  | some row =>
    have hhas : row.windows.has label = true := by
      have hfirst := h 0 (Array.getElem?_eq_some_iff.mp hrow).1
      rwa [Frame.result?, hrow] at hfirst
    simp only [hhas, if_true]
    rfl

/-- A window that was not there is computed for every row, unless an aggregate takes rows away while partitions
are sorted. -/
theorem hasResults_of_windowResults
    (hlook : c.frame.InGroups ∨ ∀ k ∈ w.partition, k.AggregateFree engine.functions)
    (horder : c.frame.InGroups ∨ Unaggregated engine w.order) (hnone : c.frame.result? label 0 = none)
    (h : windowResults engine (orderBy engine w.order) w label c = .ok ⟨⟩ d) :
    d.frame.HasResults label := by
  intro r hr
  have hundisturbed : c.Undisturbed label d := ensures_undisturbed hlook _ label (.refl label c) h
  have hr : r < c.size := hundisturbed.size ▸ hr
  have hlook' : ∀ i < c.size, c.InGroup i ∨ ∀ k ∈ w.partition, k.AggregateFree engine.functions :=
    fun i hi => hlook.imp_left fun hgroups => hgroups i hi
  obtain ⟨p, f, key, hw, hkeyed⟩ := exists_of_windowResults hlook' (by omega) hnone h
  obtain ⟨c', hsize, hwindow⟩ := windowResults_of_keyed (orderBy engine w.order) hw (by omega) hnone hkeyed
  rw [hwindow] at h
  have hfull : ∀ g ∈ groupsOfKeys c.frame key, ∀ found,
      (partitionResults engine (orderBy engine w.order) f p w).runIn (.ofFrame g.frame) = .ok found →
        ∀ place < g.members.size, ∃ v, (place, v) ∈ found := by
    intro g hg found hresults place hplace
    obtain ⟨r', -, rfl⟩ := exists_partitionOf hg
    refine exists_mem_of_partitionResults ?_ (windowFunction_eq_ok hw).2.2 hresults ?_
    · exact horder.imp_left fun hgroups => hgroups.take fun _ => lt_of_mem_peers
    · rw [Frame.partitionOf, Frame.size_take]
      exact hplace
  -- no partition failed, for the window was computed
  have hsafe : ∀ g ∈ groupsOfKeys c.frame key, ∀ e,
      (partitionResults engine (orderBy engine w.order) f p w).runIn (.ofFrame g.frame) = .error e →
        e.isInternal = false := by
    intro g hg e he
    obtain ⟨found, hok⟩ := exists_of_forM_putResults h g hg
    cases he.symm.trans hok
  obtain ⟨-, -, hall⟩ := (safe_forM_putResults hsafe hfull c').of_ok h
  exact hall _ (partitionOf_mem hr) r (hsize.symm ▸ hr) (self_mem_peers hr)

/-- A window disturbs nothing but the results under its label, and afterwards every row has its result there:
if it is computed once more, nothing changes. -/
theorem windowResults_undisturbed
    (hlook : c.frame.InGroups ∨ ∀ k ∈ w.partition, k.AggregateFree engine.functions)
    (hnone : c.frame.result? label 0 = none)
    (h : windowResults engine (orderBy engine w.order) w label c = .ok ⟨⟩ d) :
    c.Undisturbed label d ∧
      (c.frame.InGroups ∨ Unaggregated engine w.order →
        (∀ r < c.size, ∃! v, d.frame.result? label r = some v) ∧
        windowResults engine (orderBy engine w.order) w label d = .ok ⟨⟩ d) := by
  have hundisturbed : c.Undisturbed label d := ensures_undisturbed hlook _ label (.refl label c) h
  refine ⟨hundisturbed, fun horder => ?_⟩
  have hresults := hasResults_of_windowResults hlook horder hnone h
  refine ⟨fun r hr => ?_, windowResults_of_hasResults hresults _⟩
  obtain ⟨v, hv⟩ := Option.isSome_iff_exists.mp (hresults r (Nat.lt_of_lt_of_eq hr hundisturbed.size.symm))
  exact ⟨v, hv, fun v' hv' => Option.some.inj (hv'.symm.trans hv)⟩

theorem windowResults_undisturbed_amounts :
    let counted := countAmounts .whole
    let results := windowResults .builtin (orderBy .builtin counted.order) counted "n"
    ∃ d, results amounts = .ok ⟨⟩ d ∧ amounts.Undisturbed "n" d ∧
      (∀ r < 3, ∃! v, d.frame.result? "n" r = some v) ∧ results d = .ok ⟨⟩ d := by
  intro counted results
  have haligned : amounts.Aligned := (Context.Reachable.start.after _).aligned
  have hnone : amounts.frame.result? "n" 0 = none := rfl
  choose total htotal using exists_count_eq_ok (amountsValue (.field "x"))
  obtain ⟨d, hd, -⟩ := windowResults_whole haligned (windowValues_countAmounts .whole)
    (argumentValues_countAmounts .whole) (windowFunction_countAmounts .whole) hnone
    (fun rows _ => htotal rows) rfl
  have hkeys : ∀ k ∈ counted.partition, k.AggregateFree Engine.builtin.functions :=
    List.forall_mem_singleton.mpr (.of_field _ "k")
  have horder : Unaggregated .builtin counted.order :=
    List.forall_mem_singleton.mpr ⟨.of_field _ "x", List.forall_mem_nil _⟩
  obtain ⟨hundisturbed, hagain⟩ := windowResults_undisturbed (.inr hkeys) hnone hd
  exact ⟨d, hd, hundisturbed, hagain (.inr horder)⟩

end Step

end TableQuery
