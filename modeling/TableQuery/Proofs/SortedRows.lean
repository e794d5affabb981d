/-
Results in order.

Rows are sorted before anything is selected from them, so their keys are computed in the rows of the source,
and what is remembered of this is there when the columns are computed. If the keys are selected themselves,
a result in order holds the rows of the result without an order, sorted by what is in the columns.

* `Step.exists_of_sortRows` — what is left of sorting rows;
* `Step.exists_of_sorted` — a result that is selected from sorted rows is a sorted result.
-/
import TableQuery.Proofs.OrderedRows
import TableQuery.Proofs.SelectedKeys

namespace TableQuery

/-- The order depends on the keys of the places alone. -/
theorem sortPlaces_congr {directions : List Direction} {key key' : Nat → List Value} {places : List Nat}
    (h : ∀ i ∈ places, key i = key' i) :
    sortPlaces directions key places = sortPlaces directions key' places := by
  rw [← sortKeys_map_snd, ← sortKeys_map_snd, List.map_congr_left h]

/-- What is remembered about rows for parts of keys are their amounts, as long as the columns of the keys are
there. -/
def Context.Trusted (engine : Engine) (fields : List String) (order : List OrderItem) (c : Context) :
    Prop :=
  c.Finds fields → ∀ row i, c.Shows fields row i → c.Vouches engine (Expr.KeyPart order) row i

theorem Context.Trusted.of_none {engine : Engine} {fields : List String} {order : List OrderItem}
    {c : Context} (h : ∀ i label, c.remembered? engine i label = none) : c.Trusted engine fields order := by
  intro _ row i _ r _ _ x hx
  rw [h] at hx
  cases hx

namespace Step

open Context

variable {engine : Engine} {fields : List String} {exprs : List Expr} {names : List String}
  {order : List OrderItem} {c d d' e : Context} {v : View} {outcome : SortOutcome}

/-- Every row of the sorted rows is one of those before, of which only the key was computed. -/
theorem exists_of_sortRows (hc : c.Aligned)
    (hfree : ∀ e ∈ order.map OrderItem.expr, e.AggregateFree engine.functions)
    (h : sortRows engine order c = .ok outcome d) :
    d.sourceEmpty = c.sourceEmpty ∧ ∃ key : Nat → List Value,
      d.size = c.size ∧ ∀ {k i}, (sortPlaces (order.map OrderItem.direction) key
        (List.range c.size))[k]? = some i → ∃ e, d.SameRow k i e ∧ c.Touched (· = i) e ∧
          Evaluator.values engine (Expr.evaluators engine (order.map OrderItem.expr)) i false c =
            .ok (key i) e := by
  have L := local_values engine (order.map OrderItem.expr) false
  obtain ⟨values, e, hrows, -⟩ := exists_of_bind_eq_ok (show (rows _ >>= _) c = .ok outcome d from h)
  obtain ⟨-, -, key, hkey, -⟩ := L.rows_of_ok (fun _ _ => .inr hfree) hrows
  obtain ⟨c', t, hstates, hsort⟩ := sortRows_of_values (fun _ _ => .inr hfree) hkey rfl
  cases h.symm.trans hsort
  have hperm := sortPlaces_perm (order.map OrderItem.direction) key (List.range c.size)
  refine ⟨t.sourceEmpty, key, ?_, fun {k i} hk => ?_⟩
  · exact (Context.size_reorder c' _).trans (by simpa using hperm.length_eq)
  · have hlt : ∀ i ∈ sortPlaces (order.map OrderItem.direction) key (List.range c.size), i < c.size :=
      fun i hi => List.mem_range.mp (hperm.subset hi)
    have hi : i < c.size := hlt i (List.mem_of_getElem? hk)
    obtain ⟨e, he⟩ := runIn_eq_ok.mp (hkey i hi)
    have hanswers := (L.answers (.inr hfree) (.refl _ c)).of_ok he
    exact ⟨e, sameRow_sorted hc t hlt hk (hstates i hi _ e he), hanswers.2, he⟩

/-- What is selected from rows that can be trusted has its keys in its columns. -/
theorem keyed_of_values (ho : SelectedOrder engine fields exprs order) (hsome : fields ≠ [])
    (hnames : columnNames exprs = .ok names) (htrusted : c.Trusted engine fields order) {n : Nat}
    {row : Nat → List Value} (hrow : ∀ i < n, ∃ c',
      Evaluator.values engine (Expr.evaluators engine exprs) i false c = .ok (row i) c') :
    View.Keyed engine order
      ⟨names, ((List.range n).map fun i => Labelled.ofList (names.zip (row i))).toArray⟩ := by
  obtain ⟨name, hname⟩ := List.exists_mem_of_ne_nil fields hsome
  refine View.keyed_of_rows ho hnames fun i hi => ?_
  obtain ⟨c', hc'⟩ := hrow i hi
  have hvoid := (spent_values (ho.column hname) i trivial hc').2
  obtain ⟨hshows, hfinds⟩ := shows_of_values ho hnames hc' hvoid
  refine ⟨?_, fun item hitem k e hk he => ?_⟩
  · rw [length_values _ i false trivial hc', Expr.evaluators_eq_map, List.length_map]
  · exact amount_of_values ho hshows (htrusted hfinds _ i hshows) hc' hvoid hitem hk he

/-- A sorted row gives what it would have given before its key was computed. -/
theorem values_of_sorted (ho : SelectedOrder engine fields exprs order) (hsome : fields ≠ [])
    (hnames : columnNames exprs = .ok names) (htrusted : Trusted engine fields order c) {k i : Nat}
    {key xs : List Value} (hkey : Evaluator.values engine (Expr.evaluators engine
      (order.map OrderItem.expr)) i false c = .ok key e) (s : d.SameRow k i e) (t : c.Touched (· = i) e)
    (hrow : Evaluator.values engine (Expr.evaluators engine exprs) k false d = .ok xs d') :
    (∃ c', Evaluator.values engine (Expr.evaluators engine exprs) i false c = .ok xs c') ∧
      (order.map OrderItem.expr).mapM (Expr.amount engine (Labelled.ofList (names.zip xs))) = .ok key := by
  obtain ⟨name, hname⟩ := List.exists_mem_of_ne_nil fields hsome
  have hvoid := (spent_values (ho.column hname) k trivial hrow).2
  obtain ⟨hshows, hfinds⟩ := shows_of_values ho hnames hrow hvoid
  -- the row is the same before and after its key was computed, but for what is remembered
  have hshows' := ((s.near engine _).shows hshows).congr t.frame.symm t.direct.symm
  have hfinds' : c.Finds fields := fun name hname => by
    rw [← t.direct, ← s.direct]
    exact hfinds name hname
  have hvouches := htrusted hfinds' _ i hshows'
  obtain ⟨hamounts, hworked⟩ := Expr.Over.of_values ho.family ho.keys hshows' hvouches hkey
  have hnear := s.trans_near ((Near.refl hvouches).worked hworked (.refl hvouches))
  obtain ⟨c', hc', -⟩ := (near_values ho.family ho.over_part ho.clear hshows hfinds hnear hrow).resolve_left
    hvoid
  exact ⟨⟨c', hc'⟩, hamounts⟩

/-- What is selected from sorted rows is what is selected from the rows before, in the order of the keys in
its columns. -/
theorem exists_of_sorted (ho : SelectedOrder engine fields exprs order) (hsome : fields ≠ [])
    (hnames : columnNames exprs = .ok names) (hc : c.Aligned) (hempty : c.sourceEmpty = false)
    (hsize : c.size ≠ 0) (htrusted : Trusted engine fields order c)
    (hsort : sortRows engine order c = .ok outcome d)
    (hproject : project engine exprs names d = .ok v e) :
    ∃ w, (project engine exprs names).runIn c = .ok w ∧ w.Keyed engine order ∧
      v = w.take (sortPlaces (order.map OrderItem.direction) (w.key engine order)
        (List.range w.size)) := by
  obtain ⟨name, hname⟩ := List.exists_mem_of_ne_nil fields hsome
  have hfield := ho.column hname
  have hfree : ∀ e ∈ order.map OrderItem.expr, e.AggregateFree engine.functions := fun e he =>
    (ho.keys e he).1.aggregateFree
  obtain ⟨hempty', key, hsize', hsorted⟩ := exists_of_sortRows hc hfree hsort
  obtain ⟨sortedRow, rfl, hrow⟩ := exists_of_project_alone hfield (hsize' ▸ hsize) (hempty'.trans hempty)
    hproject
  -- what would be selected if rows were not sorted
  let row (i : Nat) : List Value :=
    ((Evaluator.values engine (Expr.evaluators engine exprs) i false).runIn c).toOption.getD []
  let result (i : Nat) : Row := Labelled.ofList (names.zip (row i))
  let w : View := ⟨names, ((List.range c.size).map result).toArray⟩
  have hperm := sortPlaces_perm (order.map OrderItem.direction) key (List.range c.size)
  generalize hplaces : sortPlaces (order.map OrderItem.direction) key (List.range c.size) = places
    at hsorted hperm
  have hlength : places.length = d.size := by
    rw [hsize']
    simpa using hperm.length_eq
  -- a sorted row gives what the row at its place gives, from which its keys are known
  have hplace : ∀ {k i}, places[k]? = some i → (∃ c', Evaluator.values engine
      (Expr.evaluators engine exprs) i false c = .ok (sortedRow k) c') ∧ sortedRow k = row i ∧
        (order.map OrderItem.expr).mapM (Expr.amount engine (result i)) = .ok (key i) := by
    intro k i hk
    obtain ⟨e, s, t, hkey⟩ := hsorted hk
    obtain ⟨d', hd'⟩ := hrow k (hlength ▸ (List.getElem?_eq_some_iff.mp hk).1)
    obtain ⟨⟨c', hc'⟩, hamounts⟩ := values_of_sorted ho hsome hnames htrusted hkey s t hd'
    have hsame : sortedRow k = row i := by
      simp only [row, runIn_eq_ok.mpr ⟨c', hc'⟩]
      rfl
    refine ⟨⟨c', hc'⟩, hsame, ?_⟩
    rw [hsame] at hamounts
    exact hamounts
  have hall : ∀ i < c.size, ∃ k, places[k]? = some i := fun i hi =>
    List.mem_iff_getElem?.mp (hperm.symm.subset (List.mem_range.mpr hi))
  have hvalues : ∀ i < c.size, ∃ c', Evaluator.values engine (Expr.evaluators engine exprs) i false c =
      .ok (row i) c' := by
    intro i hi
    obtain ⟨k, hk⟩ := hall i hi
    obtain ⟨hvalues, hsame, -⟩ := hplace hk
    exact hsame ▸ hvalues
  have hkeyed : w.Keyed engine order := keyed_of_values ho hsome hnames htrusted hvalues
  refine ⟨w, project_alone hfield hsize hempty hvalues, hkeyed, ?_⟩
  have hw : ∀ i ∈ places, w.rows[i]? = some (result i) := fun i hi => by
    have hi : i < c.size := List.mem_range.mp (hperm.subset hi)
    simp [w, hi]
  -- so rows of the result are in the order of the keys that they hold themselves
  have horder : sortPlaces (order.map OrderItem.direction) (w.key engine order) (List.range w.size) =
      places := by
    rw [← hplaces, show w.size = c.size by simp [w, View.size]]
    refine sortPlaces_congr fun i hi => ?_
    obtain ⟨k, hk⟩ := hall i (List.mem_range.mp hi)
    obtain ⟨-, -, hamounts⟩ := hplace hk
    exact Except.ok.inj ((hkeyed.amounts (hw i (List.mem_of_getElem? hk))).symm.trans hamounts)
  have hrows : (List.range d.size).map (fun k => Labelled.ofList (names.zip (sortedRow k))) =
      places.map result := by
    rw [← hlength, ← map_range_getD places result]
    refine List.map_congr_left fun k hk => ?_
    obtain ⟨-, hsame, -⟩ := hplace (i := places.getD k 0) (k := k) (by simp [List.mem_range.mp hk])
    rw [hsame]
  rw [horder, hrows, View.take, List.filterMap_eq_map_iff_forall_eq_some.mpr hw]

/-! ### Rows that are there to be sorted -/

/-- No look at a row takes all rows away. -/
theorem steady_nonempty (engine : Engine) : Steady engine True (·.size ≠ 0) where
  note h := h
  remember {c} i label v h := by
    have t := (Touched.refl (fun _ => True) c).remember (i := i) trivial engine label v
    rwa [t.size]
  groupOf _ i := by
    intro c g d hc he
    obtain ⟨-, -, rfl⟩ | ⟨-, -, rfl⟩ := groupOf_eq_ok he
    · exact hc
    · rw [size_collapse hc]
      exact Nat.one_ne_zero

theorem nonempty_partitionBy (keys : List Expr) :
    Ensures (·.size ≠ 0) (partitionBy engine keys) fun _ c => c.size ≠ 0 := by
  have hbuckets : Ensures (·.size ≠ 0) (buckets engine keys) fun _ c => c.size ≠ 0 := by
    intro c found d hc h
    obtain ⟨values, hrows, -⟩ := exists_rows_of_buckets h
    exact (Ensures.rows (fun i => (steady_nonempty engine).values (fun _ _ => .inl trivial) i false)
      ⟨hc, Nat.le_refl _⟩ hrows).1
  have hgroups : ∀ found, Ensures (·.size ≠ 0) (groupsOf found) fun _ c => c.size ≠ 0 := by
    intro found
    rw [groupsOf]
    exact .get_bind fun c hc => .pure _ fun d (hd : d = c) => hd ▸ hc
  rw [partitionBy]
  refine hbuckets.bind fun found => (hgroups found).bind fun groups => ?_
  refine (Ensures.modify (Q := fun _ c => c.size ≠ 0) _ fun c hc => ?_).bind fun _ => .pure _ fun _ h => h
  have hnoted := @Frame.Noted.partitions (fun _ => True) groups (fun _ _ => trivial) c.frame
  exact fun h => hc (hnoted.size.symm.trans h)

theorem nonempty_sortRows (items : List OrderItem) :
    Ensures (·.size ≠ 0) (sortRows engine items) fun _ c => c.size ≠ 0 := by
  intro c outcome d hc h
  rw [sortRows] at h
  obtain ⟨keys, c', hrows, h⟩ := exists_of_bind_eq_ok h
  have hkeys := rows_pos hc hrows
  have hc' : c'.size ≠ 0 := (Ensures.rows (fun i => (steady_nonempty engine).values
    (fun _ _ => .inl trivial) i false) ⟨hc, Nat.le_refl _⟩ hrows).1
  rw [get_bind] at h
  cases h
  show (c'.reorder _).size ≠ 0
  rw [size_reorder, List.length_map, sortKeys, List.length_mergeSort, List.length_zipIdx, List.length_take,
    Array.length_toList]
  omega

theorem nonempty_orderBy (items : List OrderItem) :
    Ensures (·.size ≠ 0) (orderBy engine items) fun _ c => c.size ≠ 0 := by
  rw [orderBy]
  refine (ensures_computeOrderWindows (fun label g results => .modify _ fun c hc => ?_)
    fun item _ => nonempty_partitionBy _).bind fun _ => nonempty_sortRows items
  have hnoted := @Frame.Noted.results (fun _ => True) label g results c.frame
  exact fun h => hc (hnoted.size.symm.trans h)

/-- A key that is computed from columns stands for no alias, where these columns are there. -/
theorem orderItem_of_over {r : Registry} {item : OrderItem} (h : item.expr.Over r fields)
    (hfinds : c.Finds fields) : c.orderItem exprs item = item := by
  rw [orderItem]
  split
  · next name hbody =>
    obtain ⟨table, htable⟩ := hfinds name (h.mem_of_body hbody)
    exact if_pos (by rw [knows, Labelled.has, htable]; rfl)
  · rfl

/-- A single row is in order, and so is none. -/
theorem take_sortPlaces_of_size (hone : v.size ≤ 1) (directions : List Direction)
    (key : Nat → List Value) : v.take (sortPlaces directions key (List.range v.size)) = v := by
  have hperm := sortPlaces_perm directions key (List.range v.size)
  have hsame : sortPlaces directions key (List.range v.size) = List.range v.size := by
    obtain hsize | hsize : v.size = 0 ∨ v.size = 1 := by omega
    · rw [hsize] at hperm ⊢
      exact hperm.eq_nil
    · rw [hsize] at hperm ⊢
      exact List.perm_singleton.mp hperm
  rw [hsame, v.take_range]

/-- What is selected from a row of Null that stands in for no rows has its keys in its columns, too. -/
theorem keyed_of_project_without_rows (ho : SelectedOrder engine fields exprs order)
    (hsome : fields ≠ []) (hnames : columnNames exprs = .ok names) (hsize : c.size = 0)
    (hproject : project engine exprs names c = .ok v e) : v.Keyed engine order := by
  obtain ⟨name, hname⟩ := List.exists_mem_of_ne_nil fields hsome
  by_cases hnone : v.size = 0
  · refine fun item _ => ⟨0, fun i row hrow => ?_⟩
    rw [View.size] at hnone
    rw [Array.getElem?_eq_none (by omega)] at hrow
    cases hrow
  by_cases hgroups : c.grouped = true ∧ c.emptyGroup.isNone = true
  · rw [project_without_groups hsize hgroups.1 (Option.isNone_iff_eq_none.mp hgroups.2)] at hproject
    cases hproject
    exact absurd rfl hnone
  obtain ⟨found, e', hrows, -, rfl⟩ := exists_of_project_without_rows hsize hgroups hproject
  cases hagg : e'.aggregated with
  | false => exact absurd (by rw [hagg]; rfl) hnone
  | true =>
    obtain ⟨-, row, rfl, hrow⟩ := exists_of_selectedRows (ho.column hname)
      (by rw [size_standIn]; exact Nat.one_ne_zero) hrows
    refine keyed_of_values ho hsome hnames (.of_none fun i label => ?_) hrow
    rw [Forgotten.remembered? (c := standIn c) rfl]
    rcases i with _ | i <;> rfl

/-- What is selected from rows in order is what is selected from the rows, in order. -/
theorem exists_of_arrange (ho : SelectedOrder engine fields exprs order) (hsome : fields ≠ [])
    (hkeys : order ≠ []) (hnames : columnNames exprs = .ok names) (hc : c.Aligned)
    (hempty : c.sourceEmpty = false) (hunseen : c.sawPlainColumn = false)
    (htrusted : c.Trusted engine fields order) (harrange : arrange engine exprs order c = .ok () d)
    (hproject : project engine exprs names d = .ok v e) :
    ∃ w, (project engine exprs names).runIn c = .ok w ∧ w.Keyed engine order ∧
      v = w.take (sortPlaces (order.map OrderItem.direction) (w.key engine order)
        (List.range w.size)) := by
  by_cases hsize : c.size = 0
  · rw [Vacant.arrange_eq ⟨hc, hsize, hunseen⟩] at harrange
    cases harrange
    refine ⟨v, runIn_eq_ok.mpr ⟨e, hproject⟩,
      keyed_of_project_without_rows ho hsome hnames hsize hproject, ?_⟩
    exact (take_sortPlaces_of_size (project_without_rows hsize hproject).1 _ _).symm
  rw [arrange, if_pos (by simpa using hkeys), get_bind] at harrange
  obtain ⟨outcome, d', horder, hlast⟩ := exists_of_bind_eq_ok harrange
  cases hlast
  have hadmitted : ∀ {e : Expr}, e.Admitted fun e => True ∨ e.AggregateFree engine.functions :=
    ⟨.inl trivial, fun _ _ => .inl trivial⟩
  have hmarks : d.marks = c.marks := (lasting_marks engine c.marks).orderBy (fun _ _ => hadmitted) rfl horder
  have hfinds : c.Finds fields := by
    intro name hname
    have hsize' := nonempty_orderBy _ hsize horder
    obtain ⟨row, -, hrow⟩ := exists_of_project_alone (ho.column hname) hsize'
      ((congrArg (·.2.1) hmarks).trans hempty) hproject
    obtain ⟨e, he⟩ := hrow 0 (Nat.pos_of_ne_zero hsize')
    obtain ⟨table, htable⟩ := direct_of_values (ho.column hname) he
    -- a column that is there at last was there before
    have hdirect : d.Void ∨ d.direct = c.direct := ((steady_direct engine c.direct).lasting
      (fun p h => h.imp_left fun hvoid => hvoid.note p)
      (fun places h => h.imp_left fun hvoid => ⟨hvoid.take places, hvoid.direct, hvoid.ambiguous⟩)
      (fun places h => h.imp_left fun hvoid => ⟨hvoid.take places, hvoid.direct, hvoid.ambiguous⟩)
      (fun h hf => h.imp_left fun hvoid => ⟨hf.views.trans hvoid.views, hvoid.direct, hvoid.ambiguous⟩)
      ).orderBy (fun _ _ => hadmitted) (.inr rfl) horder
    exact ⟨table, hdirect.resolve_left (not_void_of_direct htable) ▸ htable⟩
  have hitems : order.map (c.orderItem exprs) = order :=
    (List.map_congr_left fun item hitem => orderItem_of_over (ho.computed item hitem) hfinds).trans
      (List.map_id _)
  rw [hitems, orderBy, computeOrderWindows_of_window? fun item hitem => (ho.computed item hitem).window?_eq_none]
    at horder
  exact exists_of_sorted ho hsome hnames hc hempty hsize htrusted horder hproject

end Step

end TableQuery
