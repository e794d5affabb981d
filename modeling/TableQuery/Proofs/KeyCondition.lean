/-
A group holds the rows whose key equals its own.

An aggregate over the rows of a group is the same as over all rows for which the key equals that of
the group, as a condition. The one way goes by the buckets of keys, the other by the truth of an
equality; they come to the same rows as long as the key is neither Null nor holds what equals
nothing.

* `Step.exists_of_groupBy_eq_ok` — the groups that grouping leaves;
* `Step.value_of_key` — what a key comes to in the row of its group;
* `Step.call_of_group`, `Step.call_of_groupOf` — aggregates over a group;
* `Statement.execute_key_condition` — the queries by `group by` and by `where`.
-/
import TableQuery.Proofs.SelectedGroups
import TableQuery.Proofs.WholeGroup

namespace TableQuery

/-! ### Calls -/

namespace Expr

variable {e : Expr} {p : CallParts}

theorem body_ne_paren (e inner : Expr) : e.body ≠ .paren inner := by
  induction e using Expr.operands_induction with
  | step e ih =>
  cases e with
  | paren e => exact ih e (by simp [Expr.operands])
  | _ => exact Expr.noConfusion

theorem body_of_call? (h : e.call? = some p) :
    e.body = .call p.name p.quantifier p.arguments ∨
      e.body = .callStar p.name ∧ p.quantifier = none ∧ p.arguments = [one] := by
  rw [call?] at h
  split at h
  · cases h
    exact .inl ‹_›
  · cases h
    exact .inr ⟨‹_›, rfl, rfl⟩
  · cases h

theorem rememberedLabel?_of_call? (h : e.call? = some p) : e.rememberedLabel? = some e.label := by
  rw [rememberedLabel?, isRemembered]
  obtain hbody | ⟨hbody, -⟩ := body_of_call? h <;> rw [hbody] <;> rfl

theorem bareName_of_call? (h : e.call? = some p) : e.bareName = e.label := by
  rw [bareName]
  obtain hbody | ⟨hbody, -⟩ := body_of_call? h <;> rw [hbody]

theorem compute_of_call? (engine : Engine) (h : e.call? = some p) : (e.evaluator engine).compute =
    Step.call engine p.name p.quantifier
      (Evaluator.values engine (evaluators engine p.arguments)) := by
  rw [compute_evaluator_body]
  obtain hbody | ⟨hbody, hq, harguments⟩ := body_of_call? h
  · rw [hbody, evaluator]
  · rw [hbody, evaluator, hq, harguments]
    rfl

theorem window?_of_call? (h : e.call? = some p) : e.window? = none := by
  rw [← window?_body]
  obtain hbody | ⟨hbody, -⟩ := body_of_call? h <;> rw [hbody] <;> rfl

end Expr

namespace Step

variable {engine : Engine} {c d : Context} {name : String} {q : Option Quantifier}
  {arguments : Nat → Bool → Step (List Value)} {row : Nat} {b : Bool} {y : Value}

/-- The value of an aggregate over a frame, by whichever way it comes about. -/
def IsOver (engine : Engine) (name : String) (q : Option Quantifier)
    (arguments : Nat → Bool → Step (List Value)) (f : Frame) (y : Value) : Prop :=
  q ≠ some .all ∧ ∃ handler, engine.functions.find? name = some (.aggregate handler) ∧
    aggregateOver name handler (fun i => arguments i true) q f = .ok y

theorem call_of_group (hagg : engine.functions.isAggregate name = true) {f : Frame}
    (hf : (c.frame.rows[row]?).bind (·.group) = some f)
    (h : call engine name q arguments row b c = .ok y d) : IsOver engine name q arguments f y := by
  rw [call] at h
  by_cases hq : q = some .all
  · rw [if_pos hq] at h
    cases h
  rw [if_neg hq] at h
  cases hfind : engine.functions.find? name with
  | none => simp [Registry.isAggregate, hfind] at hagg
  | some function =>
    cases function with
    | scalar _ => simp [Registry.isAggregate, hfind] at hagg
    | window _ => simp [Registry.isAggregate, hfind] at hagg
    | aggregate handler =>
      simp only [hfind] at h
      obtain ⟨g, c', hg, h⟩ := exists_of_bind_eq_ok h
      rw [groupOf_of_group hf] at hg
      cases hg
      exact ⟨hq, handler, hfind, (lift_eq_ok h).1⟩

theorem call_of_groupOf {f : Frame} (h : IsOver engine name q arguments f y)
    (hgroup : groupOf row c = .ok f d) : call engine name q arguments row b c = .ok y d := by
  obtain ⟨hq, handler, hfind, hover⟩ := h
  rw [call, if_neg hq]
  simp only [hfind]
  show (groupOf row >>= _) c = _
  rw [bind_of_ok hgroup, hover]
  rfl

/-! ### What grouping leaves -/

/-- Buckets come from a loop over rows. -/
theorem exists_rows_of_buckets {keys : List Expr} {found : List Bucket}
    (h : buckets engine keys c = .ok found d) :
    ∃ values, rows (fun i => Evaluator.values engine (Expr.evaluators engine keys) i false) c =
      .ok values d ∧ found = Bucket.ofKeys values.toList := by
  rw [buckets] at h
  cases hlabels : duplicateLabel? [] (keys.map Expr.label) with
  | some label =>
    rw [hlabels] at h
    cases h
  | none =>
    rw [hlabels] at h
    obtain ⟨values, c', hrows, h⟩ := exists_of_bind_eq_ok h
    cases h
    exact ⟨values, hrows, rfl⟩

/-- Rows fall into buckets by the values of the keys. -/
theorem exists_of_buckets_eq_ok {keys : List Expr} {found : List Bucket}
    (hc : ∀ i < c.size, c.InGroup i ∨ ∀ k ∈ keys, k.AggregateFree engine.functions)
    (h : buckets engine keys c = .ok found d) :
    ∃ key : Nat → List Value,
      (∀ i < c.size, (Evaluator.values engine (Expr.evaluators engine keys) i false).runIn c =
        .ok (key i)) ∧
      c.Touched (· < c.size) d ∧ found = Bucket.ofKeys ((List.range c.size).map key) := by
  obtain ⟨values, hrows, rfl⟩ := exists_rows_of_buckets h
  obtain ⟨t, -, key, hkey, rfl⟩ := (local_values engine keys false).rows_of_ok hc hrows
  exact ⟨key, hkey, t, rfl⟩

/-- Grouping leaves one row for each bucket. -/
theorem exists_buckets_of_groupBy {keys : List Expr} {groups : List Group}
    (h : groupBy engine keys c = .ok groups d) :
    ∃ found columns c', buckets engine keys c = .ok found c' ∧
      groups = found.map (fun b => ⟨b.members, c'.frame.take b.members.toList⟩) ∧
      keys.mapM c'.keyColumn = .ok columns ∧
      d = { c'.collapseTo columns found groups with sawPlainColumn := false } := by
  rw [groupBy] at h
  obtain ⟨found, c', hbuckets, h⟩ := exists_of_bind_eq_ok h
  obtain ⟨groups', c₂, hgroups, h⟩ := exists_of_bind_eq_ok h
  rw [groupsOf, get_bind] at hgroups
  cases hgroups
  rw [get_bind] at h
  obtain ⟨columns, c₃, hcolumns, h⟩ := exists_of_bind_eq_ok h
  obtain ⟨hcolumns, rfl⟩ := lift_eq_ok hcolumns
  cases h
  exact ⟨found, columns, c₃, hbuckets, rfl, hcolumns, rfl⟩

/-- The columns of keys, one by one. -/
theorem exists_of_keyColumns {keys : List Expr} {columns : List KeyColumn}
    (h : keys.mapM c.keyColumn = .ok columns) {k : Nat} {column : KeyColumn} (hk : columns[k]? = some column) :
    ∃ key, keys[k]? = some key ∧ c.keyColumn key = .ok column := by
  have : Inhabited KeyColumn := ⟨.label ""⟩
  obtain ⟨g, hg, rfl⟩ := exists_of_mapM_eq_ok h
  rw [List.getElem?_map] at hk
  obtain ⟨key, hkey, rfl⟩ := Option.map_eq_some_iff.mp hk
  exact ⟨key, hkey, hg key (List.mem_of_getElem? hkey)⟩

/-- What keys become is the same after a look at rows. -/
theorem keyColumn_of_touched {rows : Nat → Prop} (t : c.Touched rows d) : d.keyColumn = c.keyColumn :=
  Context.keyColumn_congr fun field => by
    rw [Context.resolve, Context.resolve, t.direct, t.ambiguous, t.collapsed]

/-- Grouping evaluates the keys in every row, and leaves one row for each bucket of them. -/
theorem exists_of_groupBy_eq_ok {keys : List Expr} {groups : List Group}
    (hfree : ∀ k ∈ keys, k.AggregateFree engine.functions)
    (h : groupBy engine keys c = .ok groups d) :
    ∃ key : Nat → List Value, ∃ columns c',
      (∀ i < c.size, (Evaluator.values engine (Expr.evaluators engine keys) i false).runIn c =
        .ok (key i)) ∧
      keys.mapM c.keyColumn = .ok columns ∧ c.Touched (· < c.size) c' ∧
      d = { c'.collapseTo columns (Bucket.ofKeys ((List.range c.size).map key))
        ((Bucket.ofKeys ((List.range c.size).map key)).map fun b =>
          ⟨b.members, c.frame.take b.members.toList⟩) with sawPlainColumn := false } := by
  obtain ⟨found, columns, c', hbuckets, rfl, hcolumns, rfl⟩ := exists_buckets_of_groupBy h
  obtain ⟨key, hkey, t, rfl⟩ := exists_of_buckets_eq_ok (fun _ _ => .inr hfree) hbuckets
  exact ⟨key, columns, c', hkey, keyColumn_of_touched t ▸ hcolumns, t, by rw [t.frame]⟩

/-! ### The row of a group -/

theorem exists_of_values_cons {e : Expr} {es : List Expr} {xs : List Value}
    (h : Evaluator.values engine (Expr.evaluators engine (e :: es)) row b c = .ok xs d) :
    ∃ x c' ys, (e.evaluator engine).value engine row b c = .ok x c' ∧
      Evaluator.values engine (Expr.evaluators engine es) row b c' = .ok ys d ∧ xs = x :: ys := by
  rw [Evaluator.values, Expr.evaluators, List.mapM_cons] at h
  obtain ⟨x, c', hx, h⟩ := exists_of_bind_eq_ok h
  obtain ⟨ys, c'', hys, h⟩ := exists_of_bind_eq_ok h
  cases h
  exact ⟨x, c', ys, hx, hys, rfl⟩

theorem exists_of_values_nil {xs : List Value}
    (h : Evaluator.values engine (Expr.evaluators engine []) row b c = .ok xs d) :
    xs = [] ∧ d = c := by
  rw [Evaluator.values, Expr.evaluators, List.mapM_nil] at h
  cases h
  exact ⟨rfl, rfl⟩

/-- The cell of a key that is a field. -/
theorem value_keyView (table owner field : String) {buckets : List Bucket} {i : Nat} {v : Value}
    {members : Array Nat} (hi : buckets[i]? = some ⟨[v], members⟩) :
    (Context.keyView table [.field owner field] buckets).value i field =
      if owner = table then v else .null := by
  by_cases h : owner = table
  · have hfields : Context.keyFields table [.field owner field] = [(field, 0)] := by
      simp [Context.keyFields, h]
    rw [if_pos h, View.value, Context.keyView, hfields]
    simp only [List.getElem?_toArray, List.getElem?_map, hi, Option.map_some, Option.bind_some,
      List.map_cons, List.map_nil]
    rw [Labelled.ofList, List.foldl_cons, List.foldl_nil, Labelled.get?_put_self]
    rfl
  · have hfields : Context.keyFields table [.field owner field] = [] := by
      simp [Context.keyFields, h]
    rw [if_neg h, View.value, Context.keyView, hfields]
    simp only [List.getElem?_toArray, List.getElem?_map, hi, Option.map_some, Option.bind_some,
      List.map_nil]
    rfl

/-- A row that stands for a bucket of rows with one key. -/
structure KeyRow (column : KeyColumn) (v : Value) (c : Context) (i : Nat) : Prop where
  cells : ∀ table field x, ((c.frame.view? table).map (·.value i field)).getD .null = x →
    x.isNull = false → ∀ owner, column = .field owner field → x = v
  memo : c.memo[i]? = some .empty
  keys : (c.frame.rows[i]?).map (·.keys) = some (Context.labelledKeys [column] [v])

theorem get?_labelledKeys (label other : String) (v : Value) :
    (Context.labelledKeys [.label label] [v]).get? other =
      if other = label then some v else none := by
  rw [Context.labelledKeys]
  by_cases h : other = label
  · rw [if_pos h, h]
    exact Labelled.get?_put_self _ label v
  · rw [if_neg h]
    exact Labelled.get?_put_ne _ v h

theorem KeyRow.remembered? {column : KeyColumn} {v : Value} {i : Nat} (h : KeyRow column v c i)
    (engine : Engine) (label : String) :
    c.remembered? engine i label = (Context.labelledKeys [column] [v]).get? label := by
  have hkeys : (c.frame.rows[i]?).bind (·.keys.get? label) =
      (Context.labelledKeys [column] [v]).get? label := by
    obtain ⟨r, hr, hkeys⟩ := Option.map_eq_some_iff.mp h.keys
    rw [hr, ← hkeys]
    rfl
  rw [Context.remembered?, h.memo, hkeys]
  cases engine.remembers <;> rfl

/-- In the row of its group the key comes to the value that the rows of the group have, unless it is
Null, and no value is remembered on the way. -/
theorem value_of_key {k : Expr} {g : Context} {column : KeyColumn} {v x : Value} {i : Nat}
    (halias : ∀ inner name, k.body ≠ .aliased inner name) (hcolumn : g.keyColumn k = .ok column)
    (hv : ∃ j, ((k.evaluator engine).value engine j false).runIn g = .ok v)
    (h : KeyRow column v c i) (hx : (k.evaluator engine).value engine i false c = .ok x d) :
    (x.isNull = false → x = v) ∧ d.frame = c.frame ∧ d.memo = c.memo := by
  have hbody := Expr.compute_evaluator_body engine k
  have hlabel := Expr.label?_evaluator engine k
  rw [Context.keyColumn] at hcolumn
  cases hk : k.body with
  | field name =>
    rw [hk] at hcolumn
    rw [Expr.value_of_body_field engine hk, readField_apply] at hx
    obtain ⟨owner, -, howner⟩ := exists_of_map_eq_ok hcolumn
    cases hr : c.resolve name with
    | error e =>
      rw [hr] at hx
      cases hx
    | ok table =>
      rw [hr] at hx
      cases hx
      exact ⟨fun hnull => h.cells table name _ rfl hnull owner howner, rfl, rfl⟩
  | qualified table name =>
    rw [hk] at hcolumn
    have howner : column = .field table name := (Except.ok.inj hcolumn).symm
    rw [Expr.value_of_body_qualified engine hk, readQualified_apply] at hx
    cases hview : c.frame.view? table with
    | none =>
      rw [hview] at hx
      cases hx
    | some view =>
      rw [hview] at hx
      dsimp only at hx
      split at hx
      · cases hx
        refine ⟨fun hnull => h.cells table name _ ?_ hnull table howner, rfl, rfl⟩
        rw [hview]
        rfl
      · cases hx
  | literal w =>
    -- a literal has the same value in every row
    have hnone : (k.evaluator engine).label? = none := by
      rw [hlabel, Expr.rememberedLabel?, Expr.isRemembered, hk]
      rfl
    have hvalue : (k.evaluator engine).value engine = fun _ _ => pure w := by
      funext j b
      rw [Evaluator.value_of_label?_eq_none hnone, hbody, hk, Expr.evaluator]
    obtain ⟨j, hj⟩ := hv
    rw [hvalue] at hx hj
    cases hx
    cases hj
    exact ⟨fun _ => rfl, rfl, rfl⟩
  | aliased inner name => exact absurd hk (halias inner name)
  | paren e => exact absurd hk (Expr.body_ne_paren k e)
  | _ =>
    have hsome : (k.evaluator engine).label? = some k.label := by
      rw [hlabel, Expr.rememberedLabel?, Expr.isRemembered, hk]
      rfl
    have hkept : c.remembered? engine i k.label = some v := by
      rw [hk] at hcolumn
      rw [h.remembered?, ← Except.ok.inj hcolumn, get?_labelledKeys, if_pos rfl]
    rw [Evaluator.value_of_remembered hsome hkept] at hx
    cases hx
    exact ⟨fun _ => rfl, rfl, rfl⟩

/-! ### The rows for which the key equals a value -/

/-- The rows of a bucket are those whose key equals that of the bucket. -/
theorem members_eq {value : Nat → Value} {n : Nat} {bucket : Bucket} {v : Value}
    (hb : bucket ∈ Bucket.ofKeys ((List.range n).map fun i => [value i]))
    (hkey : bucket.key = [v]) (hv : v.isDefinite = true) :
    bucket.members.toList = (List.range n).filter fun i => (value i).equal v := by
  rw [(Bucket.hold_ofKeys _).members bucket hb, Bucket.placesOf_range, hkey]
  refine List.filter_congr fun i _ => ?_
  rw [Value.sameKeys, Value.sameKeys, Bool.and_true, Value.sameKey_eq_equal hv, Value.equal_comm]

/-- A key is equated with a value. -/
theorem holds_equality {k : Expr} {x v : Value} {i : Nat} (hbare : c.Bare) (hmemo : c.Forgotten)
    (hx : ((k.evaluator engine).value engine i false).runIn c = .ok x) (hv : v.isNull = false) :
    (((Expr.binary .eq k (.literal v)).evaluator engine).holds engine i).runIn c =
      .ok (x.equal v) := by
  obtain ⟨c', hx⟩ := runIn_eq_ok.mp hx
  have hliteral : ((Expr.literal v).evaluator engine).value engine i false c' = .ok v c' := by
    rw [Expr.evaluator, Evaluator.value_of_label?_eq_none rfl]
    rfl
  rw [holds_of_equality rfl (hbare.remembered? hmemo engine i _), runIn_bind_of_ok hx,
    runIn_bind_of_ok hliteral, runIn_lift]
  cases hnull : x.isNull with
  | true =>
    rw [Value.isNull_iff.mp hnull, Value.equal_null_left]
    rfl
  | false =>
    have happly : BinaryOperator.eq.apply x v = .ok (.boolean (x.equal v)) := by
      show (if x.isNull || v.isNull then _ else _) = _
      rw [hnull, hv]
      rfl
    rw [happly]
    show Except.ok (some (x.equal v) == some true) = _
    cases x.equal v <;> rfl

/-- An aggregate is selected over a group, which is that of the only row or makes one row of all. -/
theorem select_of_groupOf {a : Expr} {p : Expr.CallParts} {f : Frame}
    (hsize : c.size ≠ 0) (ha : a.call? = some p)
    (hcompute : (a.evaluator engine).compute = call engine p.name p.quantifier arguments)
    (hnone : c.remembered? engine 0 a.label = none) (hgroup : groupOf 0 c = .ok f d)
    (hd : d.size = 1) (hempty : d.sourceEmpty = false)
    (hover : IsOver engine p.name p.quantifier arguments f y) :
    (select engine [.expr a] none [] none).runIn c =
      .ok ⟨[a.label], #[.ofList [(a.label, y)]]⟩ := by
  have hlabel : (a.evaluator engine).label? = some a.label :=
    (Expr.label?_evaluator engine a).trans (Expr.rememberedLabel?_of_call? ha)
  have hvalue : (a.evaluator engine).value engine 0 false c =
      .ok y (d.remember engine 0 a.label y) := by
    rw [Evaluator.value_of_not_remembered hlabel hnone, hcompute, call_of_groupOf hover hgroup]
  have hrow : selectedRow engine [a] [a.label] 0 c =
      .ok (.ofList [(a.label, y)]) (d.remember engine 0 a.label y) := by
    rw [selectedRow, values_singleton, bind_assoc, bind_of_ok hvalue]
    rfl
  have htouched : d.Touched (fun _ => True) (d.remember engine 0 a.label y) :=
    (Context.Touched.refl _ _).remember trivial engine a.label y
  have hproject := project_of_one hsize hrow (htouched.size.trans hd)
    (htouched.sourceEmpty.trans hempty)
  have hnames : columnNames [a] = .ok [a.label] := by
    simp [columnNames, Expr.columnName, Expr.bareName_of_call? ha, duplicateLabel?]
  have hordered : ordered engine [.expr a] [] c = .ok ([a], [a.label]) c := by
    refine ordered_eq_ok.mpr ⟨⟨[[a]], rfl, rfl⟩, hnames, arranged_nil (fun e he => ?_) c⟩
    rw [List.mem_singleton.mp he]
    exact Expr.window?_of_call? ha
  rw [Step.select, selectAll_eq, runIn_bind_of_ok hordered]
  exact runIn_eq_ok.mpr ⟨{}, hproject⟩

/-- The first call of an aggregate makes one group of all rows. -/
theorem groupOf_of_bare (hc : c.Loaded) (hbare : c.Bare) : groupOf row c = .ok c.frame c.collapse := by
  rw [groupOf_of_none (hbare.state rfl row) hc.unseen, Context.wholeGroup, hc.sourceEmpty]
  rfl

/-- An aggregate is selected over all rows. -/
theorem select_of_rows {a : Expr} {p : Expr.CallParts} (hc : c.Loaded) (hbare : c.Bare)
    (hsize : c.size ≠ 0) (ha : a.call? = some p)
    (hcompute : (a.evaluator engine).compute = call engine p.name p.quantifier arguments)
    (hover : IsOver engine p.name p.quantifier arguments c.frame y) :
    (select engine [.expr a] none [] none).runIn c =
      .ok ⟨[a.label], #[.ofList [(a.label, y)]]⟩ :=
  select_of_groupOf hsize ha hcompute (hbare.remembered? hc.forgotten engine 0 a.label)
    (groupOf_of_bare hc hbare) (Context.size_collapse hsize)
    (by rw [Context.collapse_eq]; exact hc.sourceEmpty) hover

/-! ### Selection of a key and an aggregate -/

/-- The columns of a key and an aggregate have different names. -/
theorem columnNames_pair {k a : Expr} {p : Expr.CallParts} {names : List String}
    (ha : a.call? = some p) (h : columnNames [k, a] = .ok names) :
    ∃ n, names = [n, a.label] ∧ n ≠ a.label ∧ (k.bareName = k.label → k.label ≠ a.label) := by
  have hlast : Expr.columnName [k, a] a = a.label := by
    rw [Expr.columnName, Expr.bareName_of_call? ha]
    split <;> rfl
  rw [columnNames] at h
  simp only [List.map_cons, List.map_nil, hlast] at h
  by_cases hne : Expr.columnName [k, a] k = a.label
  · simp [duplicateLabel?, hne] at h
  · refine ⟨Expr.columnName [k, a] k, ?_, hne, fun hbare heq => hne ?_⟩
    · have hdistinct : duplicateLabel? [] [Expr.columnName [k, a] k, a.label] = none := by
        simp [duplicateLabel?, Ne.symm hne]
      rw [hdistinct] at h
      exact (Except.ok.inj h).symm
    · rw [Expr.columnName, hbare, heq]
      split <;> rfl

/-- A window has no value in a row of which nothing is known. -/
theorem window?_of_value {e : Expr} {x : Value} {i : Nat} (hempty : c.sourceEmpty = false)
    (hwindows : ∀ label, (c.frame.rows[i]?).bind (·.windows.get? label) = none)
    (hnone : ∀ label, c.remembered? engine i label = none)
    (hx : ((e.evaluator engine).value engine i b).runIn c = .ok x) : e.window? = none := by
  induction e using Expr.operands_induction with
  | step e ih =>
  rw [Evaluator.runIn_value_of_forgotten hnone] at hx
  cases e with
  | aliased inner name =>
    rw [Expr.evaluator] at hx
    exact ih inner (by simp [Expr.operands]) hx
  | paren inner =>
    rw [Expr.evaluator] at hx
    refine ih inner (by simp [Expr.operands]) ?_
    rwa [Evaluator.runIn_value_of_forgotten hnone]
  | window f p o extent =>
    rw [Expr.evaluator] at hx
    obtain ⟨d, hread⟩ := runIn_eq_ok.mp hx
    dsimp only at hread
    rw [readWindow_apply, hempty, hwindows] at hread
    cases hread
  | _ => rfl

/-- The row that stands for a bucket of rows. -/
def bucketRow (f : Frame) (columns : List KeyColumn) (b : Bucket) : RowState Frame where
  group := some (f.take b.members.toList)
  keys := Context.labelledKeys columns b.key

/-- The groups of the rows of a frame. -/
def bucketGroups (f : Frame) (buckets : List Bucket) : List Group :=
  buckets.map fun b => ⟨b.members, f.take b.members.toList⟩

theorem rows_collapseTo_bucketGroups (c : Context) (f : Frame) (columns : List KeyColumn)
    (buckets : List Bucket) : (c.collapseTo columns buckets (bucketGroups f buckets)).frame.rows =
      (buckets.map (bucketRow f columns)).toArray := by
  rw [rows_collapseTo]
  congr 1
  refine List.ext_getElem (by simp [bucketGroups]) fun i hi hi' => ?_
  simp [bucketGroups, bucketRow]

/-- A cell that is left holds the value of the key. -/
theorem eq_of_cell_collapseTo {owner field table : String} {buckets : List Bucket}
    {groups : List Group} {i : Nat} {v x : Value} {members : Array Nat}
    (hb : buckets[i]? = some ⟨[v], members⟩)
    (hx : (((c.collapseTo [.field owner field] buckets groups).frame.view? table).map
      fun w : View => w.value i field).getD .null = x) (hnull : x.isNull = false) : x = v := by
  have hview : (c.collapseTo [.field owner field] buckets groups).frame.view? table =
      (c.frame.view? table).map fun _ => Context.keyView table [.field owner field] buckets := by
    rw [Context.collapseTo, Context.frame_rebuildFields]
    exact lookup_map_snd (fun t (_ : View) => Context.keyView t [.field owner field] buckets) _ table
  cases hfound : c.frame.view? table with
  | none =>
    rw [hview, hfound] at hx
    subst hx
    cases hnull
  | some _ =>
    rw [hview, hfound, Option.map_some, Option.map_some, Option.getD_some,
      value_keyView table owner field hb] at hx
    split at hx
    · exact hx.symm
    · subst hx
      cases hnull

/-- Every row that is left stands for its bucket. -/
theorem keyRow_collapseTo (c : Context) (f : Frame) (column : KeyColumn) {buckets : List Bucket}
    {i : Nat} {v : Value} {members : Array Nat} (hb : buckets[i]? = some ⟨[v], members⟩) :
    KeyRow column v (c.collapseTo [column] buckets (bucketGroups f buckets)) i ∧
      ((c.collapseTo [column] buckets (bucketGroups f buckets)).frame.rows[i]?).bind (·.group) =
        some (f.take members.toList) := by
  have hrows := rows_collapseTo_bucketGroups c f [column] buckets
  have hrow : (c.collapseTo [column] buckets (bucketGroups f buckets)).frame.rows[i]? =
      some (bucketRow f [column] ⟨[v], members⟩) := by
    rw [hrows]
    simp [hb]
  have hi : i < (c.collapseTo [column] buckets (bucketGroups f buckets)).size :=
    (Array.getElem?_eq_some_iff.mp hrow).1
  refine ⟨⟨?_, (forgotten_collapseTo ..).memo hi, ?_⟩, ?_⟩
  · rintro table field x hx hnull owner rfl
    exact eq_of_cell_collapseTo hb hx hnull
  · rw [hrow]
    rfl
  · rw [hrow]
    rfl

/-- One key comes to one value. -/
theorem exists_value_of_key {k : Expr} {xs : List Value}
    (h : (Evaluator.values engine (Expr.evaluators engine [k]) row b).runIn c = .ok xs) :
    ∃ v, ((k.evaluator engine).value engine row b).runIn c = .ok v ∧ xs = [v] := by
  obtain ⟨d, h⟩ := runIn_eq_ok.mp h
  obtain ⟨v, c₁, vs, hv, hvs, rfl⟩ := exists_of_values_cons h
  obtain ⟨rfl, -⟩ := exists_of_values_nil hvs
  exact ⟨v, runIn_eq_ok.mpr ⟨c₁, hv⟩, rfl⟩

/-- One key becomes one column. -/
theorem exists_keyColumn {k : Expr} {columns : List KeyColumn}
    (h : [k].mapM c.keyColumn = .ok columns) :
    ∃ column, c.keyColumn k = .ok column ∧ columns = [column] := by
  obtain ⟨column, rest, hcolumn, hrest, rfl⟩ := mapM_cons_eq_ok h
  cases hrest
  exact ⟨column, hcolumn, rfl⟩

/-- Grouping by one key leaves a row for each bucket of its values. -/
theorem exists_of_groupBy_key {k : Expr} {g : Context} {groups : List Group}
    (hk : k.AggregateFree engine.functions) (h : groupBy engine [k] c = .ok groups g) :
    ∃ value : Nat → Value, ∃ column buckets,
      (∀ i < c.size, ((k.evaluator engine).value engine i false).runIn c = .ok (value i)) ∧
      c.keyColumn k = .ok column ∧
      buckets = Bucket.ofKeys ((List.range c.size).map fun i => [value i]) ∧
      g.size = buckets.length ∧ ∀ i b, buckets[i]? = some b → ∃ j < c.size, b.key = [value j] ∧
        KeyRow column (value j) g i ∧
        (g.frame.rows[i]?).bind (·.group) = some (c.frame.take b.members.toList) := by
  obtain ⟨key, columns, c', hkey, hcolumns, t, rfl⟩ :=
    exists_of_groupBy_eq_ok (fun e he => List.mem_singleton.mp he ▸ hk) h
  obtain ⟨column, hcolumn, rfl⟩ := exists_keyColumn hcolumns
  choose! value hvalue using fun i hi => exists_value_of_key (hkey i hi)
  have hmap : (List.range c.size).map key = (List.range c.size).map fun i => [value i] :=
    List.map_congr_left fun i hi => (hvalue i (List.mem_range.mp hi)).2
  rw [hmap]
  have hold := Bucket.hold_ofKeys ((List.range c.size).map fun i => [value i])
  generalize hbuckets : Bucket.ofKeys ((List.range c.size).map fun i => [value i]) = buckets at hold ⊢
  refine ⟨value, column, buckets, fun i hi => (hvalue i hi).1, hcolumn, hbuckets.symm, ?_,
    fun i b hb => ?_⟩
  · have hrows := congrArg Array.size (rows_collapseTo_bucketGroups c' c.frame [column] buckets)
    exact hrows.trans (by simp)
  · obtain ⟨j, hj, hkey⟩ := List.mem_map.mp (hold.key b (List.mem_of_getElem? hb))
    have hbucket : buckets[i]? = some ⟨[value j], b.members⟩ := by rw [hb, hkey]
    obtain ⟨hrow, hgroup⟩ := keyRow_collapseTo c' c.frame column hbucket
    exact ⟨j, List.mem_range.mp hj, hkey.symm, ⟨hrow.cells, hrow.memo, hrow.keys⟩, hgroup⟩

/-- What is selected in the row of a group: the key, and the aggregate over the group. -/
theorem exists_of_selectedRow {k a : Expr} {p : Expr.CallParts} {g : Context} {column : KeyColumn}
    {v : Value} {i : Nat} {f : Frame} {n : String} {r : Row}
    (halias : ∀ inner name, k.body ≠ .aliased inner name) (ha : a.call? = some p)
    (hagg : engine.functions.isAggregate p.name = true)
    (hcompute : (a.evaluator engine).compute = call engine p.name p.quantifier arguments)
    (hcolumn : g.keyColumn k = .ok column)
    (hlabel : k.bareName = k.label → k.label ≠ a.label)
    (hv : ∃ j, ((k.evaluator engine).value engine j false).runIn g = .ok v)
    (h : KeyRow column v c i) (hf : (c.frame.rows[i]?).bind (·.group) = some f)
    (hr : (selectedRow engine [k, a] [n, a.label] i).runIn c = .ok r) :
    ∃ x y, r = .ofList [(n, x), (a.label, y)] ∧ (x.isNull = false → x = v) ∧
      IsOver engine p.name p.quantifier arguments f y := by
  obtain ⟨d, hr⟩ := runIn_eq_ok.mp hr
  rw [selectedRow] at hr
  obtain ⟨xs, c', hxs, hr⟩ := exists_of_bind_eq_ok hr
  cases hr
  obtain ⟨x, c₁, ys, hx, hys, rfl⟩ := exists_of_values_cons hxs
  obtain ⟨y, c₂, zs, hy, hzs, rfl⟩ := exists_of_values_cons hys
  obtain ⟨rfl, -⟩ := exists_of_values_nil hzs
  obtain ⟨hkey, hframe, hmemo⟩ := value_of_key halias hcolumn hv h hx
  refine ⟨x, y, rfl, hkey, ?_⟩
  -- all that the row of a group remembers is its key, which has another label than the aggregate
  have hnone : c₁.remembered? engine i a.label = none := by
    have hsame : c₁.remembered? engine i a.label = c.remembered? engine i a.label := by
      rw [Context.remembered?, Context.remembered?, hframe, hmemo]
    rw [hsame, h.remembered?]
    cases column with
    | field table name => rfl
    | label l =>
      have hl : l = k.label ∧ k.bareName = k.label := by
        obtain ⟨hl, hfield, hqualified⟩ := Context.label_of_keyColumn hcolumn
        refine ⟨hl.symm, ?_⟩
        rw [Expr.bareName]
        cases hk : k.body with
        | field name => exact absurd hk (hfield name)
        | qualified table name => exact absurd hk (hqualified table name)
        | _ => rfl
      rw [get?_labelledKeys, if_neg]
      rw [hl.1]
      exact (hlabel hl.2).symm
  have hlabel? : (a.evaluator engine).label? = some a.label :=
    (Expr.label?_evaluator engine a).trans (Expr.rememberedLabel?_of_call? ha)
  obtain ⟨c₃, hcall, -⟩ := Evaluator.exists_of_value_of_not_remembered hlabel? hnone hy
  rw [hcompute] at hcall
  exact call_of_group hagg (hframe ▸ hf) hcall

end Step

namespace Statement

open Step

variable {engine : Engine} {tables : Tables} {source : Source}

/-- The query for an aggregate of the rows whose key equals a value. -/
theorem execute_equality {k a : Expr} {p : Expr.CallParts} {aliases : List String} {s : Context}
    {arguments : Nat → Bool → Step (List Value)} {value : Nat → Value} {v y : Value}
    (hk : k.AggregateFree engine.functions) (ha : a.call? = some p)
    (hcompute : (a.evaluator engine).compute = call engine p.name p.quantifier arguments)
    (hload : loadSource engine tables source {} = .ok aliases s)
    (hvalue : ∀ i < s.size, ((k.evaluator engine).value engine i false).runIn s = .ok (value i))
    (hv : v.isNull = false) (hfound : ∃ j < s.size, (value j).equal v = true)
    (hover : IsOver engine p.name p.quantifier arguments
      (s.frame.take ((List.range s.size).filter fun i => (value i).equal v)) y) :
    execute engine tables (.select source
        { selecting [.expr a] with condition := some (.binary .eq k (.literal v)) }) =
      .ok ⟨[a.label], #[.ofList [(a.label, y)]]⟩ := by
  have hs : s.Loaded := loaded_loadSource engine tables source rfl hload
  have hbare : s.Bare := bare_loadSource engine tables source rfl hload
  obtain ⟨j, hj, hequal⟩ := hfound
  have hkept : j ∈ (List.range s.size).filter fun i => (value i).equal v :=
    List.mem_filter.mpr ⟨List.mem_range.mpr hj, hequal⟩
  obtain ⟨s', -, hfilter⟩ := filter_of_truth
    (fun i _ => .inr (.binary .eq hk (.of_literal _ v)))
    fun i hi => holds_equality hbare hs.forgotten (hvalue i hi) hv
  generalize (List.range s.size).filter (fun i => (value i).equal v) = places at hover hkept hfilter
  generalize hq : { s'.replaceFrame (s.frame.take places) with sawPlainColumn := false } = q at hfilter
  have hframe : q.frame = s.frame.take places := by
    rw [← hq]
    rfl
  have hqbare : q.Bare := by
    rw [Context.Bare, hframe]
    exact Frame.bare_take hbare places
  -- a row with the key is kept, so no row of Null stands in
  have hqsize : q.size ≠ 0 := by
    rw [Context.size, hframe, Frame.size_take]
    exact (List.length_pos_of_mem hkept).ne'
  have hprepared : prepare engine { selecting [.expr a] with
      condition := some (.binary .eq k (.literal v)) } s = .ok () q := by
    show (filter engine _ >>= _) s = _
    rw [bind_of_ok hfilter]
    rfl
  rw [execute_of_prepared hload hprepared]
  exact select_of_rows (loaded_filter _ hs hfilter) hqbare hqsize ha hcompute (hframe ▸ hover)

/-- Without conditions nothing but grouping prepares rows. -/
theorem exists_groupBy_of_prepare {items : List SelectItem} {k : Expr} {s g : Context}
    (h : prepare engine { selecting items with groupBy := [k] } s = .ok () g) :
    ∃ groups, groupBy engine [k] s = .ok groups g := by
  rw [prepare] at h
  obtain ⟨⟨⟩, c, hc, h⟩ := exists_of_bind_eq_ok h
  cases hc
  obtain ⟨⟨⟩, c, hc, h⟩ := exists_of_bind_eq_ok h
  cases h
  obtain ⟨groups, c', hgroups, hc⟩ := exists_of_bind_eq_ok hc
  cases hc
  exact ⟨groups, hgroups⟩

/-- The query for a key and an aggregate, grouped by the key, gives both in every row. -/
theorem exists_of_execute_key {k a : Expr} {p : Expr.CallParts} {aliases : List String}
    {arguments : Nat → Bool → Step (List Value)} {s : Context} {w : View}
    (hk : k.AggregateFree engine.functions)
    (halias : ∀ inner name, k.body ≠ .aliased inner name) (ha : a.call? = some p)
    (hagg : engine.functions.isAggregate p.name = true)
    (hcompute : (a.evaluator engine).compute = call engine p.name p.quantifier arguments)
    (hload : loadSource engine tables source {} = .ok aliases s) (hsize : s.size ≠ 0)
    (h : execute engine tables (.select source
      { selecting [.expr k, .expr a] with groupBy := [k] }) = .ok w) :
    ∃ value : Nat → Value, ∃ n,
      (∀ i < s.size, ((k.evaluator engine).value engine i false).runIn s = .ok (value i)) ∧
      w.fields = [n, a.label] ∧ n ≠ a.label ∧ ∀ row ∈ w.rows, ∃ x y, ∃ j < s.size, ∃ b,
        b ∈ Bucket.ofKeys ((List.range s.size).map fun i => [value i]) ∧ b.key = [value j] ∧
        row = .ofList [(n, x), (a.label, y)] ∧ (x.isNull = false → x = value j) ∧
        IsOver engine p.name p.quantifier arguments (s.frame.take b.members.toList) y := by
  have hs : s.Loaded := loaded_loadSource engine tables source rfl hload
  have hbare : s.Bare := bare_loadSource engine tables source rfl hload
  obtain ⟨aliases', s', g, d, hload', hprepare, hselect⟩ := exists_of_execute_eq_ok h
  rw [hload] at hload'
  cases hload'
  obtain ⟨groups, hgroupBy⟩ := exists_groupBy_of_prepare hprepare
  obtain ⟨value, column, buckets, hvalue, hcolumn, rfl, hgsize, hrows⟩ :=
    exists_of_groupBy_key hk hgroupBy
  obtain ⟨hgrouped, -, -⟩ := grouped_groupBy [k] hs hgroupBy
  have hwindow : k.window? = none :=
    window?_of_value hs.sourceEmpty (fun _ => hbare.state rfl 0)
      (hbare.remembered? hs.forgotten engine 0) (hvalue 0 (Nat.pos_of_ne_zero hsize))
  -- neither column is a window, so that selection does nothing beforehand
  have hwindows : ∀ e ∈ [k, a], e.window? = none := by simp [hwindow, Expr.window?_of_call? ha]
  obtain ⟨names, hnames, hproject⟩ := exists_of_selectAll_exprs hwindows hselect
  obtain ⟨n, rfl, hne, hlabel⟩ := columnNames_pair ha hnames
  have hpos : g.size ≠ 0 := by
    have hfirst : [value 0] ∈ (List.range s.size).map fun i => [value i] :=
      List.mem_map.mpr ⟨0, List.mem_range.mpr (Nat.pos_of_ne_zero hsize), rfl⟩
    obtain ⟨b, hb, -⟩ := (Bucket.hold_ofKeys _).complete _ hfirst
    rw [hgsize]
    exact (List.length_pos_of_mem hb).ne'
  obtain ⟨row, hrow, rfl⟩ := exists_of_project_eq_ok hpos hgrouped.sourceEmpty
    (fun i hi => .inl (hgrouped.inGroup i hi)) (runIn_eq_ok.mpr ⟨d, hproject⟩)
  refine ⟨value, n, hvalue, rfl, hne, fun r hr => ?_⟩
  obtain ⟨i, hi, rfl⟩ := List.mem_map.mp (List.mem_toArray.mp hr)
  have hi : i < g.size := List.mem_range.mp hi
  have hb := List.getElem?_eq_getElem (Nat.lt_of_lt_of_eq hi hgsize)
  obtain ⟨j, hj, hkey, hkeyRow, hgroup⟩ := hrows i _ hb
  obtain ⟨x, y, hr, hx, hover⟩ := exists_of_selectedRow halias ha hagg hcompute hcolumn hlabel
    ⟨j, hvalue j hj⟩ hkeyRow hgroup (hrow i hi)
  exact ⟨x, y, j, hj, _, List.mem_of_getElem? hb, hkey, hr, hx, hover⟩

/-- A query for a key and an aggregate, grouped by the key, gives in every row the aggregate that the
query for it alone gives of the rows whose key equals the one in the row, unless that is Null or holds
Null or what is not a number. -/
theorem execute_key_condition {k a : Expr} {p : Expr.CallParts} {aliases : List String} {s : Context}
    {w : View} (hk : k.AggregateFree engine.functions)
    (halias : ∀ inner name, k.body ≠ .aliased inner name) (ha : a.call? = some p)
    (hagg : engine.functions.isAggregate p.name = true)
    (hload : loadSource engine tables source {} = .ok aliases s) (hsize : s.size ≠ 0)
    (h : execute engine tables (.select source
      { selecting [.expr k, .expr a] with groupBy := [k] }) = .ok w) :
    ∃ n, w.fields = [n, a.label] ∧ n ≠ a.label ∧ ∀ row ∈ w.rows, ∃ x y,
      row = .ofList [(n, x), (a.label, y)] ∧ (x.isDefinite = true →
        execute engine tables (.select source
            { selecting [.expr a] with condition := some (.binary .eq k (.literal x)) }) =
          .ok ⟨[a.label], #[.ofList [(a.label, y)]]⟩) := by
  have hcompute := Expr.compute_of_call? engine ha
  obtain ⟨value, n, hvalue, hfields, hne, hrows⟩ :=
    exists_of_execute_key hk halias ha hagg hcompute hload hsize h
  refine ⟨n, hfields, hne, fun row hrow => ?_⟩
  obtain ⟨x, y, j, hj, b, hb, hkey, hr, hx, hover⟩ := hrows row hrow
  refine ⟨x, y, hr, fun hdefinite => ?_⟩
  have hnull := Value.not_isNull_of_isDefinite hdefinite
  obtain rfl := hx hnull
  have hself : (value j).equal (value j) = true :=
    (Value.sameKey_eq_equal hdefinite _).symm.trans (Value.sameKey_refl _)
  rw [members_eq hb hkey hdefinite] at hover
  exact execute_equality hk ha hcompute hload hvalue hnull ⟨j, hj, hself⟩ hover

/-- A table of numbers, one of them twice. -/
def repeated : Tables := .ofList [("t", ⟨["x"],
  #[.ofList [("x", .ofNat 1)], .ofList [("x", .ofNat 2)], .ofList [("x", .ofNat 1)]]⟩)]

theorem execute_key_condition_repeated : ∃ w,
    execute .builtin repeated (.select (.factor (.table "t" none))
      { selecting [.expr (.field "x"), .expr (.callStar "count")] with groupBy := [.field "x"] }) =
        .ok w ∧ w.size = 2 ∧ ∀ row ∈ w.rows, ∃ x y, row = .ofList [("x", x), ("count(*)", y)] ∧
      execute .builtin repeated (.select (.factor (.table "t" none)) { selecting
        [.expr (.callStar "count")] with condition := some (.binary .eq (.field "x") (.literal x)) }) =
          .ok ⟨["count(*)"], #[.ofList [("count(*)", y)]]⟩ := by
  have hrun : (match execute .builtin repeated (.select (.factor (.table "t" none))
      { selecting [.expr (.field "x"), .expr (.callStar "count")] with groupBy := [.field "x"] }) with
      | .ok w => w.size == 2 && w.fields == ["x", "count(*)"] &&
          w.rows.all fun r => ((r.get? "x").getD .null).isDefinite
      | .error _ => false) = true := by decide +kernel
  cases h : execute .builtin repeated (.select (.factor (.table "t" none))
      { selecting [.expr (.field "x"), .expr (.callStar "count")] with groupBy := [.field "x"] }) with
  | error e =>
    rw [h] at hrun
    cases hrun
  | ok w =>
    rw [h] at hrun
    simp only [Bool.and_eq_true, beq_iff_eq, Array.all_eq_true'] at hrun
    obtain ⟨n, hfields, hne, hrows⟩ := execute_key_condition (s := _) (.of_field _ "x")
      (fun _ _ => Expr.noConfusion) rfl (by decide) rfl (by decide +kernel) h
    obtain ⟨⟨hsize, hnames⟩, hkeys⟩ := hrun
    obtain rfl : n = "x" := (List.cons.inj (hfields.symm.trans hnames)).1
    refine ⟨w, rfl, hsize, fun row hrow => ?_⟩
    obtain ⟨x, y, hr, hcondition⟩ := hrows row hrow
    have hx : row.get? "x" = some x := by
      rw [hr, Labelled.ofList, List.foldl_cons, List.foldl_cons, List.foldl_nil,
        Labelled.get?_put_ne _ _ hne, Labelled.get?_put_self]
    have hdefinite := hkeys row hrow
    rw [hx] at hdefinite
    exact ⟨x, y, hr, hcondition hdefinite⟩

end Statement

end TableQuery
