/-
A missing cell is a cell that holds Null.

Every operation on rows takes alike contexts to alike contexts, and what a query selects is written
anew from values, so that tables that differ only in missing cells give one result.

* `Step.alike_groupBy`, `Step.alike_leftJoin`, `Step.alike_windowResults`, `Step.alike_project` — operations on rows;
* `Statement.execute_of_alike` — queries over tables whose views are alike;
* `Statement.execute_of_same_values` — the same for tables that agree on the values of declared fields.
-/
import TableQuery.Proofs.Alike
import TableQuery.Proofs.SelectedGroups
import TableQuery.Session

namespace TableQuery

/-- Groups of rows at the same places, with frames that are alike. -/
structure Group.Alike (g h : Group) : Prop where
  members : g.members = h.members
  frame : g.frame.Alike h.frame

namespace Context

variable {c d : Context}

theorem Alike.reorder (h : c.Alike d) (places : List Nat) :
    (c.reorder places).Alike (d.reorder places) := by
  refine ⟨h.frame.take places, h.emptyGroup, ?_⟩
  rw [Context.reorder, Context.reorder, h.memo, h.same]

theorem Alike.keyColumn (h : c.Alike d) : d.keyColumn = c.keyColumn :=
  keyColumn_congr h.resolve

theorem Alike.collapseTo (h : c.Alike d) (columns : List KeyColumn) (buckets : List Bucket)
    {groups groups' : List Group} (hgroups : List.Forall₂ Group.Alike groups groups') :
    (c.collapseTo columns buckets groups).Alike (d.collapseTo columns buckets groups') := by
  -- rows of groups differ in nothing but the frames of their groups
  have hrows : ∀ buckets : List Bucket, List.Forall₂ (RowState.Alike Frame.Alike)
      ((buckets.zip groups).map fun p =>
        { group := some p.2.frame, keys := labelledKeys columns p.1.key })
      ((buckets.zip groups').map fun p =>
        { group := some p.2.frame, keys := labelledKeys columns p.1.key }) := by
    induction hgroups with
    | nil => exact fun buckets => by simp
    | cons hg _ ih =>
      intro buckets
      cases buckets with
      | nil => exact .nil
      | cons b buckets => exact .cons (.mk _ _ (.some hg.frame) .none) (ih buckets)
  have hframe : Frame.Alike
      ⟨c.frame.views.map fun v => (v.1, keyView v.1 columns buckets),
        ((buckets.zip groups).map fun p =>
          { group := some p.2.frame, keys := labelledKeys columns p.1.key }).toArray⟩
      ⟨d.frame.views.map fun v => (v.1, keyView v.1 columns buckets),
        ((buckets.zip groups').map fun p =>
          { group := some p.2.frame, keys := labelledKeys columns p.1.key }).toArray⟩ := by
    refine .mk (h.frame.views.map fun x y hxy _ => ⟨hxy, ?_⟩) (hrows buckets)
    dsimp only
    rw [hxy]
    exact .refl _
  have hempty : Option.Rel Frame.Alike (if buckets.isEmpty then some c.frame.empty else c.emptyGroup)
      (if buckets.isEmpty then some d.frame.empty else d.emptyGroup) := by
    split
    · exact .some (h.frame.take [])
    · exact h.emptyGroup
  have hnew := (h.withFrames h.frame hempty).replaceFrame hframe
  exact Alike.rebuildFields ⟨hnew.frame, hnew.emptyGroup, by rw [hnew.same]⟩

theorem Alike.fieldOwner? (h : c.Alike d) (e : Expr) (table : String) {right right' : View}
    (hright : right.Alike right') :
    d.fieldOwner? e table right' = c.fieldOwner? e table right := by
  have hdirect : d.direct = c.direct := by rw [h.same]
  rw [Context.fieldOwner?, Context.fieldOwner?]
  split
  · rfl
  · rw [h.knows, hright.declares, hdirect]
  · rfl

theorem Alike.isLeftField (h : c.Alike d) (aliases : List String) (o : FieldOwner) :
    d.isLeftField aliases o = c.isLeftField aliases o := by
  have hview := h.frame.view? o.table
  rw [Context.isLeftField, Context.isLeftField]
  generalize c.frame.view? o.table = v? at hview ⊢
  generalize d.frame.view? o.table = w? at hview ⊢
  cases hview with
  | none => rfl
  | some hvw => rw [Option.any_some, Option.any_some, hvw.declares]

theorem Alike.equalityKeys? (h : c.Alike d) (on : Expr) (aliases : List String) (table : String)
    {right right' : View} (hright : right.Alike right') :
    d.equalityKeys? on aliases table right' = c.equalityKeys? on aliases table right := by
  rw [Context.equalityKeys?, Context.equalityKeys?]
  split
  · simp only [h.fieldOwner? _ table hright, h.isLeftField]
  · rfl

theorem Alike.viewColumns (h : c.Alike d) (table : String) {v w : View} (hvw : v.Alike w) :
    d.viewColumns table w = c.viewColumns table v := by
  rw [Context.viewColumns, Context.viewColumns, hvw.fields, h.same]

theorem Alike.itemExprs (h : c.Alike d) : d.itemExprs = c.itemExprs := by
  funext item
  cases item with
  | expr e => rfl
  | wildcard =>
    refine congrArg Except.ok (h.frame.views.flatMap fun x y hname hxy => ?_).symm
    dsimp only
    rw [← hname, h.viewColumns x.1 hxy]
  | tableWildcard table =>
    have hview := h.frame.view? table
    rw [Context.itemExprs, Context.itemExprs]
    generalize c.frame.view? table = v? at hview ⊢
    generalize d.frame.view? table = w? at hview ⊢
    cases hview with
    | none => rfl
    | some hvw => exact congrArg Except.ok (h.viewColumns table hvw)

theorem Alike.orderItem (h : c.Alike d) (exprs : List Expr) :
    d.orderItem exprs = c.orderItem exprs := by
  funext item
  rw [Context.orderItem, Context.orderItem]
  split
  · rw [h.knows]
  · rfl

theorem Alike.standIn (h : c.Alike d) : (Step.standIn c).Alike (Step.standIn d) := by
  have hrow : (c.frame.nullRow.modifyRow 0 fun r => { r with group := c.emptyGroup }).Alike
      (d.frame.nullRow.modifyRow 0 fun r => { r with group := d.emptyGroup }) := by
    refine h.frame.nullRow.modifyRow 0 fun r s hrs => ?_
    cases hrs with
    | mk windows keys _ hpartition => exact .mk windows keys h.emptyGroup hpartition
  refine ⟨hrow, h.emptyGroup, ?_⟩
  have hnew := (h.replaceFrame hrow).same
  rw [Step.standIn, hnew]
  rfl

end Context

namespace Step

variable (engine : Engine)

/-! ### Filters and groups -/

theorem alike_filter (condition : Expr) :
    Alike Eq (filter engine condition) (filter engine condition) := by
  rw [filter]
  refine .bind_eq (.rows fun i => alike_holds engine condition i) fun truths => ?_
  exact .modify fun c d h => (h.replaceFrame (h.frame.take _)).note false

theorem alike_limit (l : Limit) : Alike Eq (limit l) (limit l) := by
  rw [limit]
  refine .modify fun c d h => ?_
  rw [h.size]
  exact h.reorder _

theorem alike_buckets (keys : List Expr) : Alike Eq (buckets engine keys) (buckets engine keys) := by
  rw [buckets]
  split
  · exact .throw _
  · exact .bind_eq (.rows fun i => alike_values engine keys i false) fun _ => .pure rfl

theorem alike_groupsOf (buckets : List Bucket) :
    Alike (List.Forall₂ Group.Alike) (groupsOf buckets) (groupsOf buckets) := by
  rw [groupsOf]
  refine .bind .get fun c d h => .pure ?_
  exact forall₂_map buckets fun b => ⟨rfl, h.frame.take _⟩

theorem alike_groupBy (keys : List Expr) :
    Alike (List.Forall₂ Group.Alike) (groupBy engine keys) (groupBy engine keys) := by
  rw [groupBy]
  refine .bind_eq (alike_buckets engine keys) fun buckets => ?_
  refine .bind (alike_groupsOf buckets) fun groups groups' hgroups => ?_
  refine .bind .get fun c d h => ?_
  rw [h.keyColumn]
  refine .bind_eq (.lift_same _) fun columns => ?_
  exact .bind_eq (.set ((h.collapseTo columns buckets hgroups).note false)) fun _ => .pure hgroups

theorem alike_partitionBy (keys : List Expr) :
    Alike (List.Forall₂ Group.Alike) (partitionBy engine keys) (partitionBy engine keys) := by
  have hfold : ∀ {groups groups' : List Group}, List.Forall₂ Group.Alike groups groups' →
      ∀ {f g : Frame}, f.Alike g →
        (groups.foldl (fun f g => g.members.foldl (fun f i =>
          f.modifyRow i fun r => { r with partition := some g.frame }) f) f).Alike
        (groups'.foldl (fun f g => g.members.foldl (fun f i =>
          f.modifyRow i fun r => { r with partition := some g.frame }) f) g) := by
    intro groups groups' hgroups
    induction hgroups with
    | nil => exact fun h => h
    | @cons p q _ _ hpq _ ih =>
      intro f g h
      rw [List.foldl_cons, List.foldl_cons]
      refine ih ?_
      rw [← hpq.members, ← Array.foldl_toList, ← Array.foldl_toList]
      generalize p.members.toList = places
      induction places generalizing f g with
      | nil => exact h
      | cons i places ih' =>
        refine ih' (h.modifyRow i fun r s hrs => ?_)
        cases hrs with
        | mk windows keys hgroup _ => exact .mk windows keys hgroup (.some hpq.frame)
  rw [partitionBy]
  refine .bind_eq (alike_buckets engine keys) fun buckets => ?_
  refine .bind (alike_groupsOf buckets) fun groups groups' hgroups => ?_
  refine .bind_eq (.modify fun c d h => ?_) fun _ => .pure hgroups
  exact (h.withFrame (hfold hgroups h.frame)).note false

/-! ### Sources -/

theorem alike_addView (table : String) {v w : View} (hvw : v.Alike w) :
    Alike Eq (addView table v) (addView table w) := by
  have hpush : Alike Eq
      (modify fun c =>
        let c := c.registerFields table v.fields
        { c with frame := c.frame.push table v })
      (modify fun c =>
        let c := c.registerFields table w.fields
        { c with frame := c.frame.push table w }) := by
    refine .modify fun c d h => ?_
    have hfields := h.registerFields table hvw
    exact hfields.withFrame (hfields.frame.push table hvw)
  rw [addView, addView]
  refine .bind .get fun c d h => ?_
  rw [h.frame.has_view?, h.hasSource, ← h.size, ← hvw.size]
  have hset : Alike Eq
      (set { c.replaceFrame (.ofSize v.size) with hasSource := true })
      (set { d.replaceFrame (.ofSize v.size) with hasSource := true }) := by
    have hnew := h.replaceFrame (.ofSize v.size)
    exact .set ⟨hnew.frame, hnew.emptyGroup, by rw [hnew.same]⟩
  by_cases hdup : (c.frame.view? table).isSome = true
  · simp only [hdup, if_true]
    exact .throw_bind _ _ _
  cases c.hasSource with
  | false =>
    simp only [hdup, Bool.not_false, Bool.false_eq_true, if_true, if_false]
    exact .bind_eq hset fun _ => hpush
  | true =>
    by_cases hsize : v.size = c.size
    · simp only [hdup, hsize, ne_eq, not_true_eq_false, Bool.not_true, Bool.false_eq_true, if_false]
      exact hpush
    · simp only [hdup, hsize, ne_eq, not_false_eq_true, Bool.not_true, Bool.false_eq_true, if_true,
        if_false]
      exact .throw_bind _ _ _

theorem alike_singleRow : Alike Eq singleRow singleRow := by
  refine .modify fun c d h => ?_
  rw [h.hasSource]
  split
  · exact h
  · have hnew := h.replaceFrame (.ofSize 1)
    exact ⟨hnew.frame, hnew.emptyGroup, by rw [hnew.same]⟩

theorem alike_mergePairs (key : Expr) {v w : View} (hvw : v.Alike w) (field : String) :
    Alike Eq (mergePairs engine key v field) (mergePairs engine key w field) := by
  have hvalue : v.value = w.value := funext fun i => funext fun f => hvw.value i f
  rw [mergePairs, mergePairs, hvw.size, hvalue]
  refine .bind .get fun c d h => ?_
  rw [h.size]
  refine .bind_eq (.mapM fun i _ => ?_) fun left => .pure rfl
  exact .bind_eq (alike_evaluator engine key i false) fun x => .pure rfl

theorem alike_tryPairs (candidates : List RowPair) (table : String) {v w : View} (hvw : v.Alike w)
    (on : Expr) :
    Alike Eq (tryPairs engine candidates table v on) (tryPairs engine candidates table w on) := by
  rw [tryPairs, tryPairs]
  refine .bind .get fun c d h => ?_
  have hframe := (h.frame.take (candidates.map Prod.fst)).push table (hvw.paired candidates)
  refine .bind_eq (.set ((h.registerFields table hvw).replaceFrame hframe)) fun _ => ?_
  refine .bind_eq (.mapM fun p _ => ?_) fun tried => ?_
  · obtain ⟨p, k⟩ := p
    dsimp only
    split
    · exact .bind_eq (alike_holds engine on k) fun b => .pure rfl
    · exact .pure rfl
  · refine .bind_eq (.modify fun c' d' h' => ?_) fun _ => .pure rfl
    exact ⟨h.frame, h'.emptyGroup, by rw [h.memo, h'.same]⟩

theorem alike_leftJoin (aliases : List String) (table : String) {v w : View} (hvw : v.Alike w)
    (on : Expr) :
    Alike Eq (leftJoin engine aliases table v on) (leftJoin engine aliases table w on) := by
  have hlast : ∀ pairs : List RowPair, Alike Eq (do
      modify fun c =>
        let frame := (c.frame.take (pairs.map Prod.fst)).push table (v.paired pairs)
        { (c.registerFields table v.fields).replaceFrame frame with sawPlainColumn := false }
      return aliases ++ [table]) (do
      modify fun c =>
        let frame := (c.frame.take (pairs.map Prod.fst)).push table (w.paired pairs)
        { (c.registerFields table w.fields).replaceFrame frame with sawPlainColumn := false }
      return aliases ++ [table]) := by
    intro pairs
    refine .bind_eq (.modify fun c d h => ?_) fun _ => .pure rfl
    have hframe := (h.frame.take (pairs.map Prod.fst)).push table (hvw.paired pairs)
    exact ((h.registerFields table hvw).replaceFrame hframe).note false
  rw [leftJoin, leftJoin]
  refine .bind .get fun c d h => ?_
  rw [h.frame.has_view?, h.equalityKeys? on aliases table hvw, ← h.size, ← hvw.size]
  by_cases hdup : (c.frame.view? table).isSome = true
  · simp only [hdup, if_true]
    exact .throw_bind _ _ _
  simp only [hdup, Bool.false_eq_true, if_false]
  by_cases hrows : c.size = 0 ∨ v.size = 0
  · simp only [hrows, if_true]
    exact hlast _
  simp only [hrows, if_false]
  cases c.equalityKeys? on aliases table v with
  | none =>
    refine .bind_eq (.pure rfl) fun candidates => ?_
    exact .bind_eq (alike_tryPairs engine candidates table hvw on) hlast
  | some found =>
    refine .bind_eq (alike_mergePairs engine found.1 hvw found.2) fun candidates => ?_
    exact .bind_eq (alike_tryPairs engine candidates table hvw on) hlast

/-! ### Windows and sorting -/

theorem alike_sortRows (items : List OrderItem) :
    Alike Eq (sortRows engine items) (sortRows engine items) := by
  rw [sortRows]
  refine .bind_eq (.rows fun i => alike_values engine _ i false) fun keys => ?_
  refine .bind .get fun c d h => ?_
  rw [h.size]
  exact .bind_eq (.modify fun c d h => (h.reorder _).note false) fun _ => .pure rfl

theorem alike_aggregateWindow (name : String)
    (f : Tuples → Bool → Option Quantifier → Except FunctionError Value) (p : Expr.CallParts)
    (extent : Extent) (size : Nat) :
    Alike Eq (aggregateWindow engine name f p extent size)
      (aggregateWindow engine name f p extent size) := by
  have hover : ∀ {g g' : Frame}, g.Alike g' → _ := fun h =>
    @aggregateOver_of_alike name f _ _ (fun i => alike_values engine p.arguments i true)
      p.quantifier _ _ h
  rw [aggregateWindow]
  refine .bind .get fun c d h => ?_
  simp only [hover h.frame, fun places => hover (h.frame.take places)]
  split
  · exact .bind_eq (.lift_same _) fun x => .pure rfl
  · exact .lift_same _

theorem alike_functionWindow (name : String)
    (f : SortedPartition → Except FunctionError (List Value)) (p : Expr.CallParts)
    (order : List OrderItem) (keys : List (List Value)) (size : Nat) :
    Alike Eq (functionWindow engine name f p order keys size)
      (functionWindow engine name f p order keys size) := by
  rw [functionWindow]
  refine .bind_eq (.mapM fun i _ => alike_values engine _ i false) fun tuples => ?_
  refine .bind_eq (.lift_same _) fun values => ?_
  split
  · exact .pure rfl
  · exact .throw _

theorem alike_partitionResults {sort : Step SortOutcome} (hsort : Alike Eq sort sort) (f : Function)
    (p : Expr.CallParts) (w : Expr.WindowParts) :
    Alike Eq (partitionResults engine sort f p w) (partitionResults engine sort f p w) := by
  rw [partitionResults]
  refine .bind .get fun c d h => ?_
  rw [h.size]
  have hboth : ∀ {s : SortOutcome → Step (List Value)}, (∀ sorted, Alike Eq (s sorted) (s sorted)) →
      ∀ {t : Step SortOutcome}, Alike Eq t t → Alike Eq
        (t >>= fun sorted => s sorted >>= fun values => pure (sorted.permutation.zip values))
        (t >>= fun sorted => s sorted >>= fun values => pure (sorted.permutation.zip values)) :=
    fun hs _ ht => .bind_eq ht fun sorted => .bind_eq (hs sorted) fun values => .pure rfl
  have hsorted : ∀ b : Bool, Alike Eq
      (if b then pure ⟨List.range d.size, List.replicate d.size []⟩ else sort)
      (if b then pure ⟨List.range d.size, List.replicate d.size []⟩ else sort) := by
    rintro (_ | _)
    · exact hsort
    · exact .pure rfl
  have hempty := hsorted w.order.isEmpty
  cases hb : w.order.isEmpty <;> rw [hb] at hempty
  all_goals
    cases f with
    | aggregate f =>
      exact hboth (fun _ => alike_aggregateWindow engine p.name f p w.extent _) hempty
    | window f =>
      exact hboth (fun sorted => alike_functionWindow engine p.name f p w.order sorted.keys _) hempty
    | scalar f => exact hboth (fun _ => .pure rfl) hempty

theorem alike_putResults (label : String) {g g' : Group} (hg : g.Alike g')
    (results : List (Nat × Value)) :
    Alike Eq (putResults label g results) (putResults label g' results) := by
  refine .modify fun c d h => h.withFrame ?_
  have hframe := h.frame
  rw [hg.members]
  generalize c.frame = f at hframe ⊢
  generalize d.frame = f' at hframe ⊢
  induction results generalizing f f' with
  | nil => exact hframe
  | cons result results ih =>
    refine ih _ _ ?_
    dsimp only
    split
    · refine hframe.modifyRow _ fun r s hrs => ?_
      cases hrs with
      | mk windows keys hgroup hpartition => exact .mk _ keys hgroup hpartition
    · exact hframe

theorem alike_windowResults {sort : Step SortOutcome} (hsort : Alike Eq sort sort)
    (w : Expr.WindowParts) (label : String) :
    Alike Eq (windowResults engine sort w label) (windowResults engine sort w label) := by
  rw [windowResults]
  refine .bind .get fun c d h => ?_
  have hfirst := h.frame.getElem? 0
  generalize c.frame.rows[0]? = r? at hfirst ⊢
  generalize d.frame.rows[0]? = s? at hfirst ⊢
  cases hfirst with
  | none => exact .pure rfl
  | @some r s hrs =>
    have hwindows : s.windows = r.windows := by
      cases hrs with
      | mk windows keys _ _ => rfl
    dsimp only
    rw [hwindows]
    -- results are there on both sides or on neither
    by_cases hhas : r.windows.has label = true
    · simp only [hhas, if_true]
      exact .pure rfl
    simp only [hhas, Bool.false_eq_true, if_false]
    refine .bind_eq (.lift_same _) fun found => ?_
    obtain ⟨p, f⟩ := found
    refine .bind (alike_partitionBy engine w.partition) fun groups groups' hgroups => ?_
    refine .forM hgroups fun g g' hg => ?_
    have hresults := ((alike_partitionResults engine hsort f p w).runIn
      (.ofFrame hg.frame)).eq
    rw [hresults]
    exact .bind_eq (.lift_same _) fun results => alike_putResults label hg results

mutual

theorem alike_computeWindow :
    ∀ e : Expr, Alike Eq (computeWindow engine e) (computeWindow engine e)
  | .window f p o x => by
    rw [computeWindow]
    refine alike_windowResults engine ?_ _ _
    exact .bind_eq (alike_computeOrderWindows o) fun _ => alike_sortRows engine o
  | .aliased e _ => by
    rw [computeWindow]
    exact alike_computeWindow e
  | .paren e => by
    rw [computeWindow]
    exact alike_computeWindow e
  | .literal .. | .field .. | .qualified .. | .binary .. | .unary .. | .isNull .. | .isIn ..
  | .isLike .. | .cast .. | .searchedCase .. | .simpleCase .. | .call .. | .callStar ..
  | .index .. => by
    rw [computeWindow_of_window? rfl]
    exact .pure rfl

theorem alike_computeOrderWindows :
    ∀ items : List OrderItem, Alike Eq (computeOrderWindows engine items)
      (computeOrderWindows engine items)
  | [] => by
    rw [computeOrderWindows]
    exact .pure rfl
  | .mk e _ :: items => by
    rw [computeOrderWindows]
    exact .bind_eq (alike_computeWindow e) fun _ => alike_computeOrderWindows items

end

/-! ### Queries -/

theorem alike_arrange (exprs : List Expr) (order : List OrderItem) :
    Alike Eq (arrange engine exprs order) (arrange engine exprs order) := by
  rw [arrange]
  split
  · refine .bind .get fun c d h => ?_
    rw [h.orderItem]
    refine .discard (.bind_eq ?_ fun _ => alike_sortRows engine _)
    exact alike_computeOrderWindows engine _
  · exact .pure rfl

theorem alike_reset : Alike Eq reset reset := .set ⟨.mk .nil .nil, .none, rfl⟩

theorem alike_project (exprs : List Expr) (names : List String) :
    Alike Eq (project engine exprs names) (project engine exprs names) := by
  have hrows : Alike Eq (do
      let found ← rows fun i => selectedRow engine exprs names i
      let c ← get
      reset
      return (⟨names, if c.sourceEmpty && !c.aggregated then #[] else found⟩ : View)) (do
      let found ← rows fun i => selectedRow engine exprs names i
      let c ← get
      reset
      return (⟨names, if c.sourceEmpty && !c.aggregated then #[] else found⟩ : View)) := by
    refine .bind_eq (.rows fun i => ?_) fun found => ?_
    · exact .bind_eq (alike_values engine exprs i false) fun values => .pure rfl
    · refine .bind .get fun c d h => .bind_eq alike_reset fun _ => ?_
      rw [h.same]
      exact .pure rfl
  rw [project]
  refine .bind .get fun c d h => ?_
  have hgrouped : d.grouped = c.grouped := by rw [h.same]
  have hempty : d.emptyGroup.isNone = c.emptyGroup.isNone := by
    have hgroup := h.emptyGroup
    generalize c.emptyGroup = g? at hgroup ⊢
    generalize d.emptyGroup = g'? at hgroup ⊢
    cases hgroup <;> rfl
  rw [hgrouped, hempty, ← h.size]
  split
  · exact .bind_eq alike_reset fun _ => .pure rfl
  · by_cases hsize : c.size = 0
    · rw [if_pos hsize, if_pos hsize]
      exact .bind_eq (.set h.standIn) fun _ => hrows
    · rw [if_neg hsize, if_neg hsize]
      exact hrows

theorem alike_selectAll (items : List SelectItem) (order : List OrderItem) (bounds : Option Limit) :
    Alike Eq (selectAll engine items order bounds) (selectAll engine items order bounds) := by
  rw [selectAll]
  refine .bind .get fun c d h => ?_
  rw [h.itemExprs]
  refine .bind_eq (.lift_same _) fun exprs => .bind_eq (.lift_same _) fun names => ?_
  refine .bind_eq (.forM (List.forall₂_same.mpr fun _ _ => rfl) fun e e' he => ?_) fun _ => ?_
  · exact he ▸ alike_computeWindow engine e
  refine .bind_eq (alike_arrange engine exprs order) fun _ => .bind_eq ?_ fun _ => ?_
  · cases bounds with
    | none => exact .pure rfl
    | some l => exact alike_limit l
  · exact alike_project engine exprs names

theorem alike_select (items : List SelectItem) (quantifier : Option Quantifier)
    (order : List OrderItem) (bounds : Option Limit) :
    Alike Eq (select engine items quantifier order bounds)
      (select engine items quantifier order bounds) := by
  rcases quantifier with _ | _ | _
  · exact alike_selectAll engine items order bounds
  · exact .bind_eq (alike_selectAll engine items [] none) fun v => .lift_same _
  · exact .throw _

theorem alike_runClauses (clauses : Clauses) :
    Alike Eq (runClauses engine clauses) (runClauses engine clauses) := by
  have hfilter : ∀ condition : Option Expr,
      Alike Eq (condition.forM (filter engine)) (condition.forM (filter engine)) := by
    rintro (_ | condition)
    · exact .pure rfl
    · exact alike_filter engine condition
  rw [runClauses_eq]
  refine .bind_eq ?_ fun _ => alike_select engine _ _ _ _
  rw [prepare]
  refine .bind_eq (hfilter _) fun _ => ?_
  split
  · exact .bind_eq (.discard (alike_groupBy engine _)) fun _ => hfilter _
  · exact hfilter _

end Step

/-! ### Tables -/

/-- Tables with the same names, whose views are alike. -/
def Tables.Alike (tables tables' : Tables) : Prop :=
  ∀ name, Option.Rel View.Alike (tables.get? name) (tables'.get? name)

namespace Statement

open Step

variable (engine : Engine) {tables tables' : Tables}

mutual

theorem execute_of_alike (h : tables.Alike tables') : ∀ s : Statement,
    s.execute engine tables = s.execute engine tables'
  | .select source clauses => by
    rw [execute, execute]
    refine (Alike.runIn ?_ ⟨.mk .nil .nil, .none, rfl⟩).eq
    exact .bind_eq (.discard (alike_loadSource h source)) fun _ => alike_runClauses engine clauses

theorem alike_loadSource (h : tables.Alike tables') : ∀ source : Source,
    Alike Eq (loadSource engine tables source) (loadSource engine tables' source)
  | .nothing => by
    rw [loadSource, loadSource]
    exact .bind_eq alike_singleRow fun _ => .pure rfl
  | .factor f => by
    rw [loadSource, loadSource]
    refine .bind (.lift (alike_loadFactor h f)) fun v w hvw => ?_
    exact .bind_eq (alike_addView f.name hvw) fun _ => .pure rfl
  | .leftJoin left right on => by
    rw [loadSource, loadSource]
    refine .bind_eq (alike_loadSource h left) fun aliases => ?_
    refine .bind (.lift (alike_loadFactor h right)) fun v w hvw => ?_
    exact alike_leftJoin engine aliases right.name hvw on

theorem alike_loadFactor (h : tables.Alike tables') : ∀ f : Factor,
    AlikeResults View.Alike (loadFactor engine tables f) (loadFactor engine tables' f)
  | .table name _ => by
    have hname := h name
    rw [loadFactor, loadFactor]
    generalize tables.get? name = v? at hname ⊢
    generalize tables'.get? name = w? at hname ⊢
    cases hname with
    | some hvw => exact .ok hvw
    | none => exact .error _
  | .derived query _ => by
    rw [loadFactor, loadFactor, execute_of_alike h query]
    cases query.execute engine tables' with
    | ok v => exact .ok (.refl v)
    | error e => exact .error e

end

end Statement

/-- In a valid view a field that is not declared holds Null in every row. -/
theorem View.get?_of_isValid {v : View} (hv : v.isValid) {row : Row} (hrow : row ∈ v.rows.toList)
    {f : String} (hf : f ∉ v.fields) : row.get? f = none := by
  rw [View.isValid, Option.isNone_iff_eq_none, View.undeclared?, List.findSome?_eq_none_iff] at hv
  obtain ⟨i, hi, hget⟩ := List.mem_iff_getElem.mp hrow
  have hfound := hv (row, i) (List.mem_zipIdx_iff_getElem?.mpr (List.getElem?_eq_some_iff.mpr ⟨hi, hget⟩))
  rw [Option.map_eq_none_iff, List.find?_eq_none] at hfound
  refine List.lookup_eq_none_iff.mpr fun e he => ?_
  have hdeclared : e.1 ∈ v.fields := by
    simpa [View.declares] using hfound e.1 (List.mem_map_of_mem he)
  exact bne_iff_ne.mpr fun hname => hf (hname ▸ hdeclared)

/-- Valid views with the same fields and rows, with the same value in every field of every row. -/
structure View.SameValues (v w : View) : Prop where
  valid : v.isValid
  valid' : w.isValid
  fields : v.fields = w.fields
  size : v.size = w.size
  value : ∀ i < v.size, ∀ f ∈ v.fields, v.value i f = w.value i f

theorem View.SameValues.alike {v w : View} (h : v.SameValues w) : v.Alike w := by
  refine ⟨h.fields, List.forall₂_iff_get.mpr ⟨h.size, fun i hi hi' f => ?_⟩⟩
  by_cases hf : f ∈ v.fields
  · have hvalue := h.value i hi f hf
    rw [View.value, View.value, ← Array.getElem?_toList, ← Array.getElem?_toList,
      List.getElem?_eq_getElem hi, List.getElem?_eq_getElem hi'] at hvalue
    exact hvalue
  · have hv := View.get?_of_isValid h.valid (List.get_mem v.rows.toList ⟨i, hi⟩) hf
    have hw := View.get?_of_isValid h.valid' (List.get_mem w.rows.toList ⟨i, hi'⟩) (h.fields ▸ hf)
    rw [hv, hw]

/-- Tables with the same names that differ only in cells that are missing or hold Null. -/
def Tables.SameValues (tables tables' : Tables) : Prop :=
  ∀ name, Option.Rel View.SameValues (tables.get? name) (tables'.get? name)

/-- A missing cell is a cell that holds Null: what a query gives depends on the values of declared
fields alone. -/
theorem Statement.execute_of_same_values {tables tables' : Tables} (h : tables.SameValues tables')
    (engine : Engine) (s : Statement) : s.execute engine tables = s.execute engine tables' := by
  refine execute_of_alike engine (fun name => ?_) s
  have hname := h name
  generalize tables.get? name = v? at hname ⊢
  generalize tables'.get? name = w? at hname ⊢
  cases hname with
  | some hvw => exact .some hvw.alike
  | none => exact .none

/-- A table whose only row lacks its only cell. -/
def absentCell : Tables := .ofList [("t", ⟨["x"], #[.empty]⟩)]

/-- The same table with Null in the cell. -/
def nullCell : Tables := .ofList [("t", ⟨["x"], #[.ofList [("x", .null)]]⟩)]

theorem sameValues_absentCell : absentCell.SameValues nullCell := by
  intro name
  by_cases hname : name = "t"
  · subst hname
    refine .some ⟨by decide, by decide, rfl, rfl, fun i hi f hf => ?_⟩
    obtain rfl : i = 0 := Nat.lt_one_iff.mp hi
    obtain rfl := List.mem_singleton.mp hf
    rfl
  · have hnone : ∀ v : View, (Labelled.ofList [("t", v)]).get? name = none := fun v =>
      Labelled.get?_put_ne _ v hname
    rw [absentCell, nullCell, hnone, hnone]
    exact .none

theorem Statement.execute_absentCell :
    absentCell.SameValues nullCell ∧
      execute .builtin absentCell
        (.select (.factor (.table "t" none)) (selecting [.expr (.isNull (.field "x") false)])) =
      execute .builtin nullCell
        (.select (.factor (.table "t" none)) (selecting [.expr (.isNull (.field "x") false)])) :=
  ⟨sameValues_absentCell, execute_of_same_values sameValues_absentCell .builtin _⟩

end TableQuery
