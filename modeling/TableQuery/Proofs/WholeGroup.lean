/-
The group of all rows.

Without groups the first aggregate turns all rows into one group, in the first row. What is looked at
in that row is the same before and after, apart from plain columns, which are gone. So what makes a
group of all rows on its way comes to the same value if they are one group from the start.

* `Context.Whole` — a look at the first row, before or after all rows have become one group, beside
  a look at the group;
* `Step.follows_value`, `Step.wholeGroup` — evaluation keeps to it.
-/
import TableQuery.Proofs.SelectedGroups

namespace TableQuery

namespace Context

theorem collapse_eq (c : Context) : c.collapse = { c with
    frame := ⟨[], (c.frame.rows.extract 0 1).map fun r => { r with group := some c.wholeGroup }⟩
    memo := c.memo.extract 0 (c.frame.rows.extract 0 1).size
    collapsed := true
    aggregated := true
    direct := .empty
    ambiguous := .empty } := by
  rw [collapse, rebuildFields]
  simp [Frame.size]

theorem rows_collapse (c : Context) : c.collapse.frame.rows =
    (c.frame.rows.extract 0 1).map fun r => { r with group := some c.wholeGroup } := by
  rw [collapse_eq]

theorem getElem?_rows_collapse (c : Context) : c.collapse.frame.rows[0]? =
    (c.frame.rows[0]?).map fun r => { r with group := some c.wholeGroup } := by
  rw [rows_collapse, Array.getElem?_map]
  congr 1
  by_cases h : 0 < c.frame.rows.size
  · simp [Array.getElem?_extract, Array.ne_empty_of_size_pos h]
  · simp [Nat.eq_zero_of_not_pos h]

theorem size_collapse {c : Context} (h : c.size ≠ 0) : c.collapse.size = 1 := by
  have hpos : 0 < c.frame.rows.size := Nat.pos_of_ne_zero h
  rw [size, Frame.size, rows_collapse]
  simp
  omega

theorem Touched.size_of_collapse {rows : Nat → Prop} {c d : Context}
    (t : c.collapse.Touched rows d) (h : c.size ≠ 0) : d.size = 1 :=
  t.size.trans (size_collapse h)

theorem getElem?_memo_collapse {c : Context} (h : c.size ≠ 0) :
    c.collapse.memo[0]? = c.memo[0]? := by
  have hpos : 0 < c.frame.rows.size := Nat.pos_of_ne_zero h
  have hone : (c.frame.rows.extract 0 1).size = 1 := by
    simp
    omega
  rw [collapse_eq]
  dsimp only
  rw [hone, Array.getElem?_extract]
  simp

theorem resolve_collapse (c : Context) (name : String) :
    c.collapse.resolve name = .error .mixedAggregate := by
  rw [collapse_eq]
  rfl

/-- One of all rows in a group stands for all of them. -/
theorem group_collapse {c : Context} (h : c.size ≠ 0) :
    (c.collapse.frame.rows[0]?).bind (·.group) = some c.wholeGroup := by
  have hpos : 0 < c.frame.rows.size := Nat.pos_of_ne_zero h
  rw [getElem?_rows_collapse, Array.getElem?_eq_getElem hpos]
  rfl

/-- What has only been looked at is turned into one group as it would have been before. -/
theorem Touched.collapse {rows : Nat → Prop} {c d : Context} (t : c.Touched rows d) :
    c.collapse.Touched (fun _ => True) d.collapse := by
  have hgroup : d.wholeGroup = c.wholeGroup := by rw [wholeGroup, wholeGroup, t.frame, t.sourceEmpty]
  rw [collapse_eq, collapse_eq]
  refine ⟨?_, t.hasSource, rfl, rfl, rfl, t.grouped, t.sourceEmpty, t.emptyGroup, ?_, ?_⟩
  · dsimp only
    rw [t.frame, hgroup]
  · simp [t.size_memo, t.frame]
  · intro k hk
    exact absurd trivial hk

/-- A look at the first row of `g`, which may have turned all rows into one group by now, beside a
look at the first row after it has. -/
structure Whole (g c d : Context) : Prop where
  here : (g.Touched (fun _ => True) c ∧ c.sawPlainColumn = false) ∨
    g.collapse.Touched (fun _ => True) c
  there : g.collapse.Touched (fun _ => True) d
  memo : c.memo[0]? = d.memo[0]?

/-- A plain column was read, and now the rows cannot become one group any more. -/
def Spoiled (g c : Context) : Prop := g.Touched (fun _ => True) c ∧ c.sawPlainColumn = true

namespace Whole

variable {g c d : Context} (w : Whole g c d)
include w

theorem sourceEmpty : d.sourceEmpty = c.sourceEmpty := by
  have hg : g.collapse.sourceEmpty = g.sourceEmpty := by rw [collapse_eq]
  rcases w.here with ⟨t, -⟩ | t
  · rw [w.there.sourceEmpty, hg, t.sourceEmpty]
  · rw [w.there.sourceEmpty, t.sourceEmpty]

/-- What the first row holds besides cells and its group. -/
theorem state {α : Type} (f : RowState Frame → Option α)
    (hf : ∀ r g, f { r with group := g } = f r) :
    (d.frame.rows[0]?).bind f = (c.frame.rows[0]?).bind f := by
  rcases w.here with ⟨t, -⟩ | t
  · rw [w.there.frame, t.frame, getElem?_rows_collapse, Option.bind_map]
    exact congrArg (Option.bind _) (funext fun r => hf r _)
  · rw [w.there.frame, t.frame]

theorem remembered? (engine : Engine) (label : String) :
    d.remembered? engine 0 label = c.remembered? engine 0 label := by
  rw [Context.remembered?, Context.remembered?, w.memo,
    w.state (fun r => r.keys.get? label) fun _ _ => rfl]

theorem remember (engine : Engine) (label : String) (v : Value) :
    Whole g (c.remember engine 0 label v) (d.remember engine 0 label v) := by
  have hsaw : (c.remember engine 0 label v).sawPlainColumn = c.sawPlainColumn := by
    rw [Context.remember]
    split <;> rfl
  refine ⟨?_, w.there.remember trivial engine label v, ?_⟩
  · rcases w.here with ⟨t, hnot⟩ | t
    · exact .inl ⟨t.remember trivial engine label v, hsaw.trans hnot⟩
    · exact .inr (t.remember trivial engine label v)
  · rw [Context.remember, Context.remember]
    split
    · show (c.memo.modify 0 _)[0]? = (d.memo.modify 0 _)[0]?
      rw [Array.getElem?_modify, Array.getElem?_modify, if_pos rfl, if_pos rfl, w.memo]
    · exact w.memo

/-- What has been noted about plain columns makes no difference to one group. -/
theorem note (hc : c.InGroup 0) (hgroup : ¬g.InGroup 0) (b b' : Bool) :
    Whole g { c with sawPlainColumn := b } { d with sawPlainColumn := b' } := by
  refine ⟨.inr ?_, w.there.note b', w.memo⟩
  rcases w.here with ⟨t, -⟩ | t
  · rw [InGroup, t.frame] at hc
    exact absurd hc hgroup
  · exact t.note b

/-- A name that is no field before is none afterwards. -/
theorem orderItem {exprs : List Expr} {item : OrderItem}
    (hitem : ∀ name, item.expr.body = .field name → g.knows name = false) :
    d.orderItem exprs item = g.orderItem exprs item := by
  have hknows : ∀ name, d.knows name = false := by
    intro name
    rw [Context.knows, w.there.direct, w.there.ambiguous, collapse_eq]
    rfl
  rw [Context.orderItem, Context.orderItem]
  split
  · rw [hknows, hitem _ ‹_›]
  · rfl

omit w in
theorem resolve (name : String) (hc : g.collapse.Touched (fun _ => True) c) :
    c.resolve name = .error .mixedAggregate := by
  rw [Context.resolve, hc.direct, hc.ambiguous, hc.collapsed]
  exact g.resolve_collapse name

end Whole

end Context

namespace Step

open Context

variable {engine : Engine} {g : Context}

theorem follows_readField (name : String) :
    Follows (Spoiled g) (Whole g) (fun _ => False) (readField name 0 false)
      (readField name 0 false) := by
  constructor
  · intro c x c' hc h
    obtain ⟨-, rfl⟩ := readField_eq_ok h
    exact ⟨hc.1.note true, rfl⟩
  · intro c d x c' w h
    obtain ⟨⟨table, hr⟩, rfl⟩ := readField_eq_ok h
    rcases w.here with ⟨t, -⟩ | t
    · exact .inl ⟨t.note true, rfl⟩
    · rw [Whole.resolve name t] at hr
      cases hr

theorem follows_readQualified (table name : String) :
    Follows (Spoiled g) (Whole g) (fun _ => False) (readQualified table name 0 false)
      (readQualified table name 0 false) := by
  constructor
  · intro c x c' hc h
    obtain ⟨-, rfl⟩ := readQualified_eq_ok h
    exact ⟨hc.1.note true, rfl⟩
  · intro c d x c' w h
    obtain ⟨hviews, rfl⟩ := readQualified_eq_ok h
    rcases w.here with ⟨t, -⟩ | t
    · exact .inl ⟨t.note true, rfl⟩
    · rw [t.frame, views_collapse] at hviews
      exact absurd rfl hviews

theorem follows_readWindow (label : String) :
    Follows (Spoiled g) (Whole g) (fun _ => False) (readWindow label 0) (readWindow label 0) := by
  constructor
  · intro c x c' hc h
    rwa [readWindow_eq_ok h]
  · intro c d x c' w h
    obtain rfl := readWindow_eq_ok h
    refine .inr (.inl ⟨d, ?_, w⟩)
    rw [readWindow_apply] at h ⊢
    rw [w.sourceEmpty, w.state (fun r => r.windows.get? label) fun _ _ => rfl]
    cases hempty : c'.sourceEmpty with
    | true =>
      rw [hempty] at h
      cases h
      rfl
    | false =>
      rw [hempty] at h
      cases hv : (c'.frame.rows[0]?).bind (·.windows.get? label) with
      | none =>
        rw [hv] at h
        cases h
      | some v =>
        rw [hv] at h
        cases h
        rfl

/-- The first aggregate makes a group of all rows, which is there already on the other side. -/
theorem follows_groupOf (hsize : g.size ≠ 0) (hgroup : ¬g.InGroup 0) :
    Follows (Spoiled g) (Whole g) (fun _ => False) (groupOf 0) (groupOf 0) := by
  have hnone : ∀ {c : Context}, g.Touched (fun _ => True) c →
      (c.frame.rows[0]?).bind (·.group) = none := by
    intro c t
    rw [t.frame]
    exact Option.not_isSome_iff_eq_none.mp hgroup
  have hsome : ∀ {c : Context}, g.collapse.Touched (fun _ => True) c →
      groupOf 0 c = .ok g.wholeGroup { c with aggregated := true } := by
    intro c t
    refine groupOf_of_group ?_
    rw [t.frame]
    exact group_collapse hsize
  constructor
  · intro c x c' hc h
    rw [groupOf_of_sawPlainColumn (hnone hc.1) hc.2] at h
    cases h
  · intro c d x c' w h
    refine .inr (.inl ⟨{ d with aggregated := true }, ?_⟩)
    -- either this is the first aggregate, or the group is there on both sides
    rcases w.here with ⟨t, hsaw⟩ | t
    · rw [groupOf_of_none (hnone t) hsaw] at h
      cases h
      have hwhole : c.wholeGroup = g.wholeGroup := by
        rw [wholeGroup, wholeGroup, t.frame, t.sourceEmpty]
      refine ⟨by rw [hsome w.there, hwhole], .inr t.collapse, w.there.noteAggregated true, ?_⟩
      have hsize' : c.size ≠ 0 := by rwa [t.size]
      exact (getElem?_memo_collapse hsize').trans w.memo
    · rw [hsome t] at h
      cases h
      exact ⟨hsome w.there, .inr (t.noteAggregated true), w.there.noteAggregated true, w.memo⟩

theorem follows_value {v : Evaluator}
    (h : Follows (Spoiled g) (Whole g) (fun _ => False) (v.compute 0 false) (v.compute 0 false)) :
    Follows (Spoiled g) (Whole g) (fun _ => False) (v.value engine 0 false)
      (v.value engine 0 false) :=
  h.value (fun {c} label x hc => by
      refine ⟨hc.1.remember trivial engine label x, ?_⟩
      rw [Context.remember]
      split <;> exact hc.2)
    (fun _ w => w.remembered? engine _) fun x _ w => w.remember engine _ x

/-- The simulation of a look at the first row by a look at the group of all rows. -/
def wholeGroup (engine : Engine) (hsize : g.size ≠ 0) (hgroup : ¬g.InGroup 0) :
    SelfSimulation engine where
  Index := Unit
  row _ := 0
  otherRow _ := 0
  inAggregate _ := false
  relation _ := .follows (Spoiled g) (Whole g) fun _ => False
  admits _ := True
  operand _ _ := trivial
  readField _ := follows_readField
  readQualified _ := follows_readQualified
  readWindow _ _ _ _ _ _ := follows_readWindow _
  call _ _ name q f _ _ hf := by
    let r : StepRelation := .follows (Spoiled g) (Whole g) fun _ => False
    exact r.call rfl (fun _ _ _ _ _ => trivial) (fun _ _ => hf) fun h _ =>
      r.bind (follows_groupOf hsize hgroup) fun group => r.lift fun _ _ => trivial
  value _ _ _ h := follows_value h

/-- What makes a group of all rows comes to the same when they are one already. -/
theorem Follows.of_inGroup {α : Type} {s t : Step α} {c d c' : Context} {a : α}
    (h : Follows (Spoiled g) (Whole g) (fun _ => False) s t) (hgroup : ¬g.InGroup 0)
    (w : Whole g c d) (hs : s c = .ok a c') (hc' : c'.InGroup 0) :
    ∃ d', t d = .ok a d' ∧ Whole g c' d' ∧ g.collapse.Touched (fun _ => True) c' := by
  have hframe : ¬g.Touched (fun _ => True) c' := by
    intro t
    rw [InGroup, t.frame] at hc'
    exact hgroup hc'
  rcases h.follows w hs with ⟨t, -⟩ | ⟨d', hd, w'⟩ | ⟨_, _, _, he⟩
  · exact absurd t hframe
  · rcases w'.here with ⟨t, -⟩ | t
    · exact absurd t hframe
    · exact ⟨d', hd, w', t⟩
  · exact he.elim

/-! ### One row -/

section

variable {α : Type} {action : Nat → Step α} {a : α} {c d : Context}

/-- A loop ends when the first row is all that is left. -/
theorem rows_of_one (hsize : c.size ≠ 0) (h : action 0 c = .ok a d) (hd : d.size = 1) :
    rows action c = .ok #[a] d := by
  obtain ⟨n, hn⟩ := Nat.exists_eq_succ_of_ne_zero hsize
  rw [rows, get_bind, hn, rowsAfter, get_bind, hn]
  simp only [Array.size_empty, Nat.zero_lt_succ, if_true]
  rw [bind_of_ok h]
  cases n with
  | zero => rfl
  | succ n =>
    rw [rowsAfter, get_bind, hd]
    rfl

/-- What is selected in the only row is the result. -/
theorem project_of_one {exprs : List Expr} {names : List String} {row : Row} (hsize : c.size ≠ 0)
    (h : selectedRow engine exprs names 0 c = .ok row d) (hd : d.size = 1)
    (hempty : d.sourceEmpty = false) : project engine exprs names c = .ok ⟨names, #[row]⟩ {} := by
  have hrows : rows (selectedRow engine exprs names) c = .ok #[row] d := rows_of_one hsize h hd
  rw [project, get_bind, if_neg fun h => hsize h.1]
  simp only [hsize, if_false]
  show (rows (selectedRow engine exprs names) >>= fun found => do
    let c ← get
    reset
    return (⟨names, if c.sourceEmpty && !c.aggregated then #[] else found⟩ : View)) c = _
  rw [bind_of_ok hrows, get_bind, hempty]
  rfl

/-- Rows whose keys are in order stay where they are. -/
theorem sortRows_of_sorted {items : List OrderItem} {keys : Array (List Value)}
    (h : rows (fun i => Evaluator.values engine (Expr.evaluators engine (items.map OrderItem.expr))
      i false) c = .ok keys d) (hsize : keys.size = d.size) (haligned : d.Aligned)
    (hsorted : keys.toList.Pairwise fun a b =>
      compareKeys (items.map OrderItem.direction) a b ≠ .gt) :
    sortRows engine items c = .ok ⟨List.range d.size, keys.toList⟩ { d with sawPlainColumn := false } := by
  have htake : keys.toList.take d.size = keys.toList := List.take_of_length_le (by simp [hsize])
  have hsame : sortKeys (items.map OrderItem.direction) keys.toList = keys.toList.zipIdx := by
    rw [← List.zipIdx_map_fst 0 keys.toList, List.pairwise_map] at hsorted
    exact List.mergeSort_of_pairwise (hsorted.imp fun hab => by simpa using hab)
  have hplaces : keys.toList.zipIdx.map Prod.snd = List.range d.size := by
    rw [List.zipIdx_map_snd, List.range_eq_range', Array.length_toList, hsize]
  rw [sortRows, bind_of_ok h, get_bind, htake, hsame, hplaces, List.zipIdx_map_fst]
  show EStateM.Result.ok _ { d.reorder (List.range d.size) with sawPlainColumn := false } = _
  rw [haligned.reorder_range]

/-- Putting rows in order whose keys are in order leaves them where they are. -/
theorem arranged_of_sorted {exprs : List Expr} {order : List OrderItem} {keys : Array (List Value)}
    (hexprs : ∀ e ∈ exprs, e.window? = none) (hwindows : ∀ item ∈ order, item.expr.window? = none)
    (horder : order ≠ [])
    (h : rows (fun i => Evaluator.values engine
      (Expr.evaluators engine ((order.map (c.orderItem exprs)).map OrderItem.expr)) i false) c =
        .ok keys d) (hsize : keys.size = d.size) (haligned : d.Aligned)
    (hsorted : keys.toList.Pairwise fun a b =>
      compareKeys ((order.map (c.orderItem exprs)).map OrderItem.direction) a b ≠ .gt) :
    arranged engine exprs order c = .ok () { d with sawPlainColumn := false } := by
  rw [arranged_eq_sortRows hexprs hwindows horder]
  exact discard_of_ok (sortRows_of_sorted h hsize haligned hsorted)

theorem itemExprs_of_exprs (c : Context) (exprs : List Expr) :
    (exprs.map SelectItem.expr).mapM c.itemExprs = .ok (exprs.map fun e => [e]) := by
  induction exprs with
  | nil => rfl
  | cons e es ih =>
    rw [List.map_cons, List.mapM_cons, ih]
    rfl

theorem flatten_map_singleton (exprs : List Expr) : (exprs.map fun e => [e]).flatten = exprs := by
  rw [← List.flatMap_def, List.flatMap_singleton']

/-- Items that are expressions stand for themselves. -/
theorem ordered_exprs_eq_ok {exprs es : List Expr} {names : List String} {order : List OrderItem} :
    ordered engine (exprs.map .expr) order c = .ok (es, names) d ↔
      exprs = es ∧ columnNames exprs = .ok names ∧ arranged engine exprs order c = .ok () d := by
  rw [ordered_eq_ok, itemExprs_of_exprs]
  constructor
  · rintro ⟨⟨l, hl, rfl⟩, hnames, harranged⟩
    obtain rfl := Except.ok.inj hl
    rw [flatten_map_singleton] at hnames harranged ⊢
    exact ⟨rfl, hnames, harranged⟩
  · rintro ⟨rfl, hnames, harranged⟩
    exact ⟨⟨_, rfl, (flatten_map_singleton exprs).symm⟩, hnames, harranged⟩

/-- Without windows and order what is selected are the items themselves. -/
theorem exists_of_selectAll_exprs {exprs : List Expr} {v : View}
    (hwindows : ∀ e ∈ exprs, e.window? = none)
    (h : selectAll engine (exprs.map .expr) [] none c = .ok v d) :
    ∃ names, columnNames exprs = .ok names ∧ project engine exprs names c = .ok v d := by
  obtain ⟨exprs', names, c', hordered, hproject⟩ := exists_of_selectAll_eq_ok h
  obtain ⟨rfl, hnames, harranged⟩ := ordered_exprs_eq_ok.mp hordered
  rw [arranged_nil hwindows] at harranged
  cases harranged
  exact ⟨names, hnames, hproject⟩

/-- What is selected from rows whose keys are in order is selected from them as they are. -/
theorem ordered_of_sorted {exprs : List Expr} {names : List String} {order : List OrderItem}
    {keys : Array (List Value)} (hexprs : ∀ e ∈ exprs, e.window? = none)
    (hwindows : ∀ item ∈ order, item.expr.window? = none) (horder : order ≠ [])
    (hcolumns : columnNames exprs = .ok names)
    (h : rows (fun i => Evaluator.values engine
      (Expr.evaluators engine ((order.map (c.orderItem exprs)).map OrderItem.expr)) i false) c =
        .ok keys d) (hsize : keys.size = d.size) (haligned : d.Aligned)
    (hsorted : keys.toList.Pairwise fun a b =>
      compareKeys ((order.map (c.orderItem exprs)).map OrderItem.direction) a b ≠ .gt) :
    ordered engine (exprs.map .expr) order c = .ok (exprs, names) { d with sawPlainColumn := false } :=
  ordered_exprs_eq_ok.mpr
    ⟨rfl, hcolumns, arranged_of_sorted hexprs hwindows horder h hsize haligned hsorted⟩

/-- What is selected of the only row, after it was put in order. -/
theorem selectAll_of_one {exprs : List Expr} {names : List String} {order : List OrderItem}
    {key : List Value} {row : Row} {e : Context} (hc : c.Aligned) (hsize : c.size = 1)
    (hexprs : ∀ e ∈ exprs, e.window? = none) (hwindows : ∀ item ∈ order, item.expr.window? = none)
    (horder : order ≠ []) (hcolumns : columnNames exprs = .ok names)
    (hkey : Evaluator.values engine
      (Expr.evaluators engine ((order.map (c.orderItem exprs)).map OrderItem.expr)) 0 false c =
        .ok key d)
    (hrow : selectedRow engine exprs names 0 { d with sawPlainColumn := false } = .ok row e)
    (hd : d.size = 1) (he : e.size = 1) (hempty : e.sourceEmpty = false) :
    ordered engine (exprs.map .expr) order c = .ok (exprs, names) { d with sawPlainColumn := false } ∧
      selectAll engine (exprs.map .expr) order none c = .ok ⟨names, #[row]⟩ {} := by
  have hpos : c.size ≠ 0 := by omega
  have haligned : d.Aligned := ((steady_intact engine c.size).values (fun _ _ => .inl trivial) 0 false
    ⟨hc, .inl rfl⟩ hkey).1
  have hordered := ordered_of_sorted hexprs hwindows horder hcolumns (rows_of_one hpos hkey hd) hd.symm
    haligned (List.pairwise_singleton _ _)
  have hpos' : d.size ≠ 0 := by omega
  refine ⟨hordered, ?_⟩
  rw [selectAll_eq, bind_of_ok hordered]
  exact project_of_one hpos' hrow he hempty

end

end Step

end TableQuery
