/-
Windows over whole partitions.

A window partitions rows by keys as grouping does. An aggregate function over the whole of each partition
then gives every row the value that it has for the group of the row, if the rows are grouped by the same
keys and the call has a value for each group.

* `Step.partitionBy_of_groupBy` — the partitions are the groups;
* `Step.partitionResults_of_isWhole` — the results for the rows of one partition;
* `Step.putResults_eq_ok`, `Step.forM_putResults` — where results are put;
* `Step.isOver_of_evaluate` — what a call comes to in the row of a group;
* `Step.computeWindow_of_groupBy` — every row has the value of its group.
-/
import TableQuery.Proofs.KeyCondition

namespace TableQuery

theorem Labelled.get?_ofList_eq_none {α : Type} {label : String} {entries : List (String × α)}
    (h : ∀ e ∈ entries, e.1 ≠ label) : (ofList entries).get? label = none := by
  have hput : ∀ (m : Labelled α), m.get? label = none →
      (entries.foldl (fun m e => m.put e.1 e.2) m).get? label = none := by
    induction entries with
    | nil => exact fun _ hm => hm
    | cons e entries ih =>
      intro m hm
      refine ih (fun e' he' => h e' (List.mem_cons_of_mem e he')) _ ?_
      rw [get?_put_ne m e.2 (h e List.mem_cons_self).symm, hm]
  exact hput empty rfl

namespace Frame

/-- The result of a window that is noted for a row. -/
def result? (f : Frame) (label : String) (i : Nat) : Option Value :=
  (f.rows[i]?).bind (·.windows.get? label)

/-- Notes a result for the member at a place. -/
def noteResult (label : String) (members : Array Nat) (f : Frame) (r : Nat × Value) : Frame :=
  match members[r.1]? with
  | some i => f.modifyRow i fun row => { row with windows := row.windows.put label r.2 }
  | none => f

theorem size_noteResult (label : String) (members : Array Nat) (f : Frame) (r : Nat × Value) :
    (f.noteResult label members r).size = f.size := by
  rw [noteResult]
  split
  · exact f.size_modifyRow _ _
  · rfl

theorem result?_noteResult (label : String) (members : Array Nat) (f : Frame) (r : Nat × Value)
    (i : Nat) : (f.noteResult label members r).result? label i =
      if members[r.1]? = some i ∧ i < f.size then some r.2 else f.result? label i := by
  rw [noteResult]
  cases hj : members[r.1]? with
  | none => simp
  | some j =>
    dsimp only
    rw [result?, modifyRow, Array.getElem?_modify]
    by_cases hji : j = i
    · subst hji
      by_cases hlt : j < f.size
      · have hrow : f.rows[j]? = some f.rows[j] := Array.getElem?_eq_getElem hlt
        simp [hlt, hrow]
      · have hnone : f.rows[j]? = none := Array.getElem?_eq_none (Nat.le_of_not_lt hlt)
        simp [hlt, hnone, result?]
    · simp [hji, result?]

end Frame

namespace Bucket

variable {keys : List (List Value)} {buckets : List Bucket}

/-- No place is in two buckets. -/
theorem Hold.disjoint (h : Hold keys buckets) :
    buckets.Pairwise fun a b => ∀ i ∈ a.members.toList, i ∉ b.members.toList := by
  refine h.pairwise.imp_of_mem fun {a b} ha hb hne i hi hi' => ?_
  rw [h.members a ha, placesOf] at hi
  rw [h.members b hb, placesOf] at hi'
  obtain ⟨⟨key, j⟩, hkey, rfl⟩ := List.mem_map.mp hi
  obtain ⟨⟨key', j'⟩, hkey', hj⟩ := List.mem_map.mp hi'
  obtain ⟨hmem, hsame⟩ := List.mem_filter.mp hkey
  obtain ⟨hmem', hsame'⟩ := List.mem_filter.mp hkey'
  obtain rfl : j' = j := hj
  have hget := List.mem_zipIdx_iff_getElem?.mp hmem
  have hget' := List.mem_zipIdx_iff_getElem?.mp hmem'
  obtain rfl : key = key' := Option.some.inj (hget.symm.trans hget')
  rw [Value.sameKeys_congr hsame b.key, Value.sameKeys_comm, hsame'] at hne
  cases hne

/-- Every place is in a bucket. -/
theorem Hold.exists_mem (h : Hold keys buckets) {i : Nat} (hi : i < keys.length) :
    ∃ b ∈ buckets, i ∈ b.members.toList := by
  obtain ⟨b, hb, hsame⟩ := h.complete _ (List.getElem_mem hi)
  refine ⟨b, hb, ?_⟩
  rw [h.members b hb, placesOf]
  refine List.mem_map.mpr ⟨(keys[i], i), List.mem_filter.mpr ⟨?_, hsame⟩, rfl⟩
  exact List.mem_zipIdx_iff_getElem?.mpr (List.getElem?_eq_getElem hi)

end Bucket

/-- Every member of a group has a result, and all results are the values of the rows that they are for. -/
structure Group.Gives (g : Group) (value : Nat → Value) (results : List (Nat × Value)) : Prop where
  value : ∀ r ∈ results, ∀ i, g.members[r.1]? = some i → r.2 = value i
  full : ∀ place < g.members.size, ∃ v, (place, v) ∈ results

theorem Group.Gives.replicate {g : Group} (hsize : g.frame.size = g.members.size) (y : Value) :
    g.Gives (fun _ => y) ((List.range g.frame.size).zip (List.replicate g.frame.size y)) where
  value r hr _ _ := List.eq_of_mem_replicate (List.of_mem_zip hr).2
  full place hplace :=
    ⟨y, List.mem_iff_getElem.mpr ⟨place, by simpa [hsize] using hplace, by simp⟩⟩

/-- The labels of keys are those of the expressions that rows are grouped by. -/
theorem Context.exists_of_label_mem {c : Context} {keys : List Expr} {columns : List KeyColumn}
    (h : keys.mapM c.keyColumn = .ok columns) {label : String} (hl : .label label ∈ columns) :
    ∃ k ∈ keys, k.label = label := by
  obtain ⟨position, hposition⟩ := List.mem_iff_getElem?.mp hl
  obtain ⟨k, hk, hcolumn⟩ := Step.exists_of_keyColumns h hposition
  exact ⟨k, List.mem_of_getElem? hk, (label_of_keyColumn hcolumn).1⟩

/-- Only labels of keys are kept in the row of a group. -/
theorem Context.get?_labelledKeys_eq_none {columns : List KeyColumn} {label : String}
    (h : KeyColumn.label label ∉ columns) (key : List Value) :
    (labelledKeys columns key).get? label = none := by
  refine Labelled.get?_ofList_eq_none fun e he => ?_
  obtain ⟨⟨column, v⟩, hmem, hcolumn⟩ := List.mem_filterMap.mp he
  cases column with
  | field table name => cases hcolumn
  | label l =>
    cases hcolumn
    rintro rfl
    exact h (List.of_mem_zip hmem).1

namespace Step

variable {engine : Engine} {c d e : Context}

/-! ### Partitions -/

/-- The partitions of the rows are the groups that they would be grouped into. Every row is in one of them
and in no other. -/
theorem partitionBy_of_groupBy {keys : List Expr} {groups : List Group}
    (hkeys : ∀ k ∈ keys, k.AggregateFree engine.functions)
    (h : groupBy engine keys c = .ok groups d) :
    (∃ d', partitionBy engine keys c = .ok groups d' ∧ d'.size = c.size) ∧
      (∀ g ∈ groups, g.frame.size = g.members.size ∧ ∀ i ∈ g.members, i < c.size) ∧
      (groups.Pairwise fun g h => ∀ i ∈ g.members.toList, i ∉ h.members.toList) ∧
      ∀ i < c.size, ∃ g ∈ groups, i ∈ g.members := by
  obtain ⟨found, -, c', hbuckets, rfl, -, -⟩ := exists_buckets_of_groupBy h
  obtain ⟨key, -, t, rfl⟩ := exists_of_buckets_eq_ok (fun _ _ => .inr hkeys) hbuckets
  have hold := Bucket.hold_ofKeys ((List.range c.size).map key)
  have hlength : ((List.range c.size).map key).length = c.size := by
    rw [List.length_map, List.length_range]
  refine ⟨?_, ?_, List.pairwise_map.mpr hold.disjoint, ?_⟩
  · rw [partitionBy, bind_of_ok hbuckets]
    exact ⟨_, rfl,
      (@Frame.Noted.partitions (fun _ => True) _ (fun _ _ => trivial) c'.frame).size.trans t.size⟩
  · intro g hg
    obtain ⟨b, hb, rfl⟩ := List.mem_map.mp hg
    exact ⟨(Frame.size_take _ _).trans Array.length_toList,
      fun i hi => hlength ▸ Bucket.lt_length_of_mem_members hb hi⟩
  · intro i hi
    obtain ⟨b, hb, hmem⟩ := hold.exists_mem (hlength ▸ hi)
    exact ⟨_, List.mem_map_of_mem hb, Array.mem_toList_iff.mp hmem⟩

/-- An aggregate over a whole partition has one value for all of its rows. -/
theorem partitionResults_of_isWhole
    {f : Tuples → Bool → Option Quantifier → Except FunctionError Value} {p : Expr.CallParts}
    {w : Expr.WindowParts} {y : Value} {group : Frame} (sort : Step SortOutcome)
    (horder : w.order = []) (hextent : w.extent.isWhole = true)
    (hover : aggregateOver p.name f (fun i => Evaluator.values engine
      (Expr.evaluators engine p.arguments) i true) p.quantifier group = .ok y) :
    (partitionResults engine sort (.aggregate f) p w).runIn (.ofFrame group) =
      .ok ((List.range group.size).zip (List.replicate group.size y)) := by
  have hframe : (Context.ofFrame group).frame = group := Context.frame_rebuildFields _
  have hsize : (Context.ofFrame group).size = group.size := by rw [Context.size, hframe]
  refine runIn_eq_ok.mpr ⟨.ofFrame group, ?_⟩
  rw [partitionResults, get_bind, horder, hsize]
  have hwindow : aggregateWindow engine p.name f p w.extent group.size (.ofFrame group) =
      .ok (List.replicate group.size y) (.ofFrame group) := by
    rw [aggregateWindow, get_bind, if_pos hextent, hframe]
    exact bind_of_ok (by rw [hover]; rfl)
  exact bind_of_ok hwindow

/-! ### Results -/

/-- Values are noted in the rows of their places, and nowhere else. -/
theorem result?_foldl_noteResult {label : String} {members : Array Nat} {y : Value} {i : Nat}
    {results : List (Nat × Value)} (hy : ∀ r ∈ results, members[r.1]? = some i → r.2 = y) (f : Frame) :
    ((∀ r ∈ results, members[r.1]? ≠ some i) →
        (results.foldl (Frame.noteResult label members) f).result? label i = f.result? label i) ∧
      (i < f.size → (f.result? label i = some y ∨ ∃ r ∈ results, members[r.1]? = some i) →
        (results.foldl (Frame.noteResult label members) f).result? label i = some y) := by
  -- both parts at once, since the second one needs to know what later notes leave alone
  induction results generalizing f with
  | nil => exact ⟨fun _ => rfl, fun _ h => h.resolve_right (by simp)⟩
  | cons r results ih =>
    obtain ⟨hrest, hfound⟩ := ih (fun r' hr' => hy r' (List.mem_cons_of_mem r hr'))
      (f.noteResult label members r)
    have hfirst := f.result?_noteResult label members r i
    rw [List.foldl_cons]
    refine ⟨fun h => ?_, fun hi h => hfound (f.size_noteResult label members r ▸ hi) ?_⟩
    · rw [hrest fun r' hr' => h r' (List.mem_cons_of_mem r hr'), hfirst,
        if_neg fun hr => h r List.mem_cons_self hr.1]
    · by_cases hr : members[r.1]? = some i
      · exact .inl (by rw [hfirst, if_pos ⟨hr, hi⟩, hy r List.mem_cons_self hr])
      · rw [hfirst, if_neg fun h => hr h.1]
        refine h.imp_right fun ⟨r', hr', hri⟩ => ?_
        rcases List.mem_cons.mp hr' with rfl | hr'
        · exact absurd hri hr
        · exact ⟨r', hr', hri⟩

/-- The values for a partition are put into each of its rows. -/
theorem putResults_eq_ok (label : String) {group : Group} {value : Nat → Value}
    {results : List (Nat × Value)} (hresults : group.Gives value results) (c : Context) :
    ∃ d, putResults label group results c = .ok ⟨⟩ d ∧ d.size = c.size ∧
      (∀ i, i ∉ group.members.toList → d.frame.result? label i = c.frame.result? label i) ∧
      ∀ i < c.size, i ∈ group.members.toList → d.frame.result? label i = some (value i) := by
  have hput : putResults label group results c = .ok ⟨⟩ { c with
    frame := results.foldl (Frame.noteResult label group.members) c.frame } := rfl
  have hresult := fun i => @result?_foldl_noteResult label group.members (value i) i results
    (fun r hr => hresults.value r hr i) c.frame
  have hnoted := @Frame.Noted.results (fun _ => True) label group results c.frame
  refine ⟨_, hput, hnoted.size, fun i hi => (hresult i).1 fun r _ hr => hi ?_,
    fun i hi hmem => (hresult i).2 hi (.inr ?_)⟩
  · exact Array.mem_toList_iff.mpr (Array.mem_of_getElem? hr)
  · obtain ⟨place, hlt, hplace⟩ := List.getElem_of_mem hmem
    obtain ⟨v, hv⟩ := hresults.full place (by simpa using hlt)
    refine ⟨(place, v), hv, ?_⟩
    rw [← hplace]
    exact Array.getElem?_eq_getElem (by simpa using hlt)

/-- When the partitions have no rows in common, every row has the value that its partition has for it. -/
theorem forM_putResults {label : String} {groups : List Group}
    {results : Group → Except ExecutionError (List (Nat × Value))} {value : Group → Nat → Value}
    (hresults : ∀ g ∈ groups, ∃ found, results g = .ok found ∧ g.Gives (value g) found)
    (hmembers : groups.Pairwise fun g h => ∀ i ∈ g.members.toList, i ∉ h.members.toList)
    (c : Context) :
    ∃ d, (groups.forM fun g => do putResults label g (← lift (results g))) c = .ok ⟨⟩ d ∧
      (∀ i, (∀ g ∈ groups, i ∉ g.members.toList) →
        d.frame.result? label i = c.frame.result? label i) ∧
      ∀ g ∈ groups, ∀ i < c.size, i ∈ g.members.toList →
        d.frame.result? label i = some (value g i) := by
  induction groups generalizing c with
  | nil => exact ⟨c, rfl, fun _ _ => rfl, by simp⟩
  | cons g groups ih =>
    obtain ⟨hdisjoint, hpairwise⟩ := List.pairwise_cons.mp hmembers
    obtain ⟨found, hfound, hgives⟩ := hresults g List.mem_cons_self
    obtain ⟨d₁, hput, hsize₁, hsame, hvalue⟩ := putResults_eq_ok label hgives c
    obtain ⟨d, hrest, hsame', hvalue'⟩ := ih (fun g' hg' => hresults g' (List.mem_cons_of_mem g hg'))
      hpairwise d₁
    refine ⟨d, ?_, fun i hi => ?_, fun g' hg' i hi hmem => ?_⟩
    · have hfirst : (do putResults label g (← lift (results g))) c = .ok ⟨⟩ d₁ := by
        rw [hfound]
        exact hput
      exact (bind_of_ok hfirst).trans hrest
    · rw [hsame' i fun g' hg' => hi g' (List.mem_cons_of_mem g hg'), hsame i (hi g List.mem_cons_self)]
    -- later partitions do not have the rows of this one, so its value is not overwritten
    · rcases List.mem_cons.mp hg' with rfl | hg'
      · rw [hsame' i fun g' hg' => hdisjoint g' hg' i hmem, hvalue i hi hmem]
      · exact hvalue' g' hg' i (hsize₁ ▸ hi) hmem

/-! ### Groups -/

/-- In the row of a group, a call whose label is none of the keys' comes to the aggregate over the group. -/
theorem isOver_of_evaluate {a : Expr} {p : Expr.CallParts} {k : Nat} {f : Frame} {y : Value}
    (ha : a.call? = some p) (hagg : engine.functions.isAggregate p.name = true)
    (hremembered : c.remembered? engine k a.label = none)
    (hf : (c.frame.rows[k]?).bind (·.group) = some f)
    (hy : (evaluate engine a k false).runIn c = .ok y) :
    IsOver engine p.name p.quantifier
      (Evaluator.values engine (Expr.evaluators engine p.arguments)) f y := by
  have hlabel := (a.label?_evaluator engine).trans (Expr.rememberedLabel?_of_call? ha)
  rw [evaluate, Evaluator.runIn_value_of_not_remembered hlabel hremembered,
    Expr.compute_of_call? engine ha] at hy
  obtain ⟨d, hd⟩ := runIn_eq_ok.mp hy
  exact call_of_group hagg hf hd

/-- The row of a group is in the group, and keeps no value under a label that no key has. -/
theorem row_of_groupBy {keys : List Expr} {groups : List Group} {g : Context} {label : String}
    (hlabels : ∀ k ∈ keys, k.label ≠ label) (h : groupBy engine keys c = .ok groups g) :
    g.size = groups.length ∧ ∀ k < groups.length, g.remembered? engine k label = none ∧
      (g.frame.rows[k]?).bind (·.group) = (groups[k]?).map Group.frame := by
  obtain ⟨found, columns, c', -, hgroups, hcolumns, rfl⟩ := exists_buckets_of_groupBy h
  have hlength : found.length = groups.length := by rw [hgroups, List.length_map]
  have hrows := rows_collapseTo c' columns found groups
  have hsize : (c'.collapseTo columns found groups).size = groups.length := by
    rw [Context.size, Frame.size, hrows]
    simp [hlength]
  -- in the row of a group values are kept under labels of keys only
  have hnone : KeyColumn.label label ∉ columns := fun hmem => by
    obtain ⟨k, hk, hkl⟩ := Context.exists_of_label_mem hcolumns hmem
    exact hlabels k hk hkl
  have hforgotten := forgotten_collapseTo c' columns found groups
  refine ⟨hsize, fun k hk => ?_⟩
  obtain ⟨bucket, hbucket⟩ : ∃ b, found[k]? = some b := ⟨_, List.getElem?_eq_getElem (hlength ▸ hk)⟩
  have hrow : (c'.collapseTo columns found groups).frame.rows[k]? = some
      { group := some groups[k].frame, keys := Context.labelledKeys columns bucket.key } := by
    have hpair : (found.zip groups)[k]? = some (bucket, groups[k]) :=
      List.getElem?_zip_eq_some.mpr ⟨hbucket, List.getElem?_eq_getElem hk⟩
    rw [hrows, List.getElem?_toArray, List.getElem?_map, hpair]
    rfl
  refine ⟨?_, ?_⟩
  · have hmemo := hforgotten.memo (hsize ▸ hk)
    show ((if engine.remembers then ((c'.collapseTo columns found groups).memo[k]?).bind
      (·.get? label) else none).or _) = none
    rw [hmemo, hrow]
    simp only [Option.bind_some, Labelled.get?_empty, ite_self, Option.none_or]
    exact Context.get?_labelledKeys_eq_none hnone bucket.key
  · show ((c'.collapseTo columns found groups).frame.rows[k]?).bind _ = _
    rw [hrow, List.getElem?_eq_getElem hk]
    rfl

/-! ### Windows -/

theorem windowFunction_of_aggregate {a : Expr} {p : Expr.CallParts} {keys : List Expr}
    {f : Tuples → Bool → Option Quantifier → Except FunctionError Value} (ha : a.call? = some p)
    (hq : p.quantifier ≠ some .all) (hf : engine.functions.find? p.name = some (.aggregate f)) :
    windowFunction engine ⟨a, keys, [], .whole⟩ = .ok (p, .aggregate f) := by
  simp only [windowFunction, ha, if_neg hq, hf]

/-- An aggregate over whole partitions with no rows in common gives every row the value that it has over
the partition of the row. -/
theorem computeWindow_of_partition {keys : List Expr} {a : Expr} {p : Expr.CallParts} {row : RowState Frame}
    {f : Tuples → Bool → Option Quantifier → Except FunctionError Value} {groups : List Group}
    {value : Group → Value} (hfirst : c.frame.rows[0]? = some row)
    (hnew : row.windows.has (Expr.window a keys [] .whole).label = false)
    (hfunction : windowFunction engine ⟨a, keys, [], .whole⟩ = .ok (p, .aggregate f))
    (hpartition : partitionBy engine keys c = .ok groups d) (hsize : d.size = c.size)
    (hframe : ∀ g ∈ groups, g.frame.size = g.members.size)
    (hmembers : groups.Pairwise fun g h => ∀ i ∈ g.members.toList, i ∉ h.members.toList)
    (hvalue : ∀ g ∈ groups, aggregateOver p.name f (fun i => Evaluator.values engine
      (Expr.evaluators engine p.arguments) i true) p.quantifier g.frame = .ok (value g)) :
    ∃ e, computeWindow engine (.window a keys [] .whole) c = .ok ⟨⟩ e ∧
      ∀ g ∈ groups, ∀ i < c.size, i ∈ g.members →
        e.frame.result? (Expr.window a keys [] .whole).label i = some (value g) := by
  let sort := do computeOrderWindows engine []; sortRows engine []
  have hresults : ∀ g ∈ groups, ∃ found, runIn (.ofFrame g.frame)
      (partitionResults engine sort (.aggregate f) p ⟨a, keys, [], .whole⟩) = .ok found ∧
        g.Gives (fun _ => value g) found := fun g hg =>
    ⟨_, partitionResults_of_isWhole sort rfl rfl (hvalue g hg), .replicate (hframe g hg) _⟩
  obtain ⟨e, hput, -, hresult⟩ := @forM_putResults (Expr.window a keys [] .whole).label groups _
    (fun g _ => value g) hresults hmembers d
  refine ⟨e, ?_, fun g hg i hi hmem => hresult g hg i (hsize ▸ hi) (Array.mem_toList_iff.mpr hmem)⟩
  rw [computeWindow, windowResults, get_bind, hfirst]
  simp only [hnew]
  rw [hfunction]
  exact (bind_of_ok hpartition).trans hput

/-- An aggregate over the partitions of the rows by some keys gives every row the value that it has for the
group of the row when the rows are grouped by the keys. The label of the call must be none of the keys',
and no row may have a result of the window yet. -/
theorem computeWindow_of_groupBy {keys : List Expr} {a : Expr} {p : Expr.CallParts}
    {groups : List Group} {g : Context} {values : Array Value}
    (hkeys : ∀ k ∈ keys, k.AggregateFree engine.functions) (ha : a.call? = some p)
    (hagg : engine.functions.isAggregate p.name = true) (hlabels : ∀ k ∈ keys, k.label ≠ a.label)
    (hnew : ∀ r ∈ c.frame.rows, r.windows.has (Expr.window a keys [] .whole).label = false)
    (hgroup : groupBy engine keys c = .ok groups g)
    (hvalues : rows (fun k => evaluate engine a k false) g = .ok values e) :
    ∃ d, computeWindow engine (.window a keys [] .whole) c = .ok ⟨⟩ d ∧
      (∀ i < c.size, ∃ group ∈ groups, i ∈ group.members) ∧
      ∀ (k : Nat) (group : Group), groups[k]? = some group → ∀ i ∈ group.members,
        d.frame.result? (Expr.window a keys [] .whole).label i = values[k]? := by
  obtain ⟨hsize, hrow⟩ := row_of_groupBy hlabels hgroup
  have hgrouped : ∀ k < g.size, g.InGroup k := fun k hk => by
    rw [Context.InGroup, (hrow k (hsize ▸ hk)).2, List.getElem?_eq_getElem (hsize ▸ hk)]
    rfl
  obtain ⟨-, -, value, hvalue, rfl⟩ := (local_evaluate engine a false).rows_of_ok
    (fun k hk => .inl (hgrouped k hk)) hvalues
  obtain ⟨⟨c', hpartition, hsize'⟩, hmembers, hdisjoint, hcover⟩ := partitionBy_of_groupBy hkeys hgroup
  have hover : ∀ (k : Nat) (group : Group), groups[k]? = some group →
      IsOver engine p.name p.quantifier (Evaluator.values engine (Expr.evaluators engine p.arguments))
        group.frame (value k) := by
    intro k group hk
    have hlt : k < groups.length := (List.getElem?_eq_some_iff.mp hk).1
    obtain ⟨hremembered, hframe⟩ := hrow k hlt
    rw [hk] at hframe
    exact isOver_of_evaluate ha hagg hremembered hframe (hvalue k (hsize ▸ hlt))
  -- without rows no window is computed, and there is nothing to show: no group has members
  cases hfirst : c.frame.rows[0]? with
  | none =>
    have hnone : ∀ group ∈ groups, ∀ i, i ∉ group.members := fun group hmem i hi => by
      have hlt := (hmembers group hmem).2 i hi
      have hzero : c.size ≤ 0 := Array.getElem?_eq_none_iff.mp hfirst
      omega
    refine ⟨c, ?_, hcover, fun k group hk i hi => absurd hi (hnone group (List.mem_of_getElem? hk) i)⟩
    rw [computeWindow, windowResults, get_bind, hfirst]
    rfl
  | some row =>
    -- some group tells what the function of the call is; it is the same for all of them
    obtain ⟨group₀, hmem₀, -⟩ := hcover 0 (Array.getElem?_eq_some_iff.mp hfirst).1
    obtain ⟨k₀, hk₀⟩ := List.mem_iff_getElem?.mp hmem₀
    obtain ⟨hq, f, hfind, -⟩ := hover k₀ group₀ hk₀
    let valueOver (group : Group) : Except ExecutionError Value :=
      aggregateOver p.name f (fun i => Evaluator.values engine (Expr.evaluators engine p.arguments)
        i true) p.quantifier group.frame
    have hvalueOver : ∀ (k : Nat) (group : Group), groups[k]? = some group →
        valueOver group = .ok (value k) := by
      intro k group hk
      obtain ⟨-, f', hfind', hy⟩ := hover k group hk
      obtain rfl : f' = f := by simpa using hfind'.symm.trans hfind
      exact hy
    have hvalues : ∀ group ∈ groups,
        valueOver group = .ok ((valueOver group).toOption.getD .null) := by
      intro group hmem
      obtain ⟨k, hk⟩ := List.mem_iff_getElem?.mp hmem
      rw [hvalueOver k group hk]
      rfl
    obtain ⟨d, hcompute, hresult⟩ := computeWindow_of_partition hfirst
      (hnew row (Array.mem_of_getElem? hfirst)) (windowFunction_of_aggregate ha hq hfind) hpartition
      hsize' (fun group hmem => (hmembers group hmem).1) hdisjoint hvalues
    refine ⟨d, hcompute, hcover, fun k group hk i hi => ?_⟩
    have hmem := List.mem_of_getElem? hk
    have hlt : k < g.size := hsize ▸ (List.getElem?_eq_some_iff.mp hk).1
    rw [hresult group hmem i ((hmembers group hmem).2 i hi) hi, hvalueOver k group hk]
    simp [hlt, Except.toOption]

/-- Three amounts, two of them under the same key. -/
def amounts : Context := Context.after .builtin {} (.addView "t" ⟨["k", "x"],
  #[.ofList [("k", .ofNat 1), ("x", .ofNat 5)], .ofList [("k", .ofNat 2), ("x", .ofNat 7)],
    .ofList [("k", .ofNat 1), ("x", .ofNat 3)]]⟩)

/-- The highest amount under the key of a row. -/
def highest : Expr := .window (.call "max" none [.field "x"]) [.field "k"] [] .whole

theorem computeWindow_highest : ∃ d, computeWindow .builtin highest amounts = .ok ⟨⟩ d ∧
    ∀ i < 3, d.frame.result? highest.label i = some (.ofNat (if i = 1 then 7 else 5)) := by
  have hvalues : ∃ e, rows (fun k => evaluate .builtin (.call "max" none [.field "x"]) k false)
      (amounts.after .builtin (.groupBy [.field "k"])) = .ok #[.ofNat 5, .ofNat 7] e := ⟨_, rfl⟩
  have hgroup : ∃ groups, groupBy .builtin [.field "k"] amounts =
        .ok groups (amounts.after .builtin (.groupBy [.field "k"])) ∧
      groups.map Group.members = [#[0, 2], #[1]] := ⟨_, rfl, rfl⟩
  obtain ⟨groups, hgroup, hmembers⟩ := hgroup
  obtain ⟨e, hvalues⟩ := hvalues
  obtain ⟨d, hd, -, hresult⟩ := computeWindow_of_groupBy (a := .call "max" none [.field "x"])
    (fun k hk => by
      obtain rfl := List.mem_singleton.mp hk
      exact .of_field _ "k") rfl (by decide +kernel) (by decide +kernel) (by decide +kernel) hgroup
    hvalues
  refine ⟨d, hd, fun i hi => ?_⟩
  match groups, hmembers with
  | [g₀, g₁], hmembers =>
    obtain ⟨h₀, h₁⟩ : g₀.members = #[0, 2] ∧ g₁.members = #[1] := by simpa using hmembers
    match i, hi with
    | 0, _ => exact hresult 0 g₀ rfl 0 (by simp [h₀])
    | 1, _ => exact hresult 1 g₁ rfl 1 (by simp [h₁])
    | 2, _ => exact hresult 0 g₀ rfl 2 (by simp [h₀])

end Step

end TableQuery
