/-
Views stay as long as their rows.

A context is aligned when each of its views has as many rows as the context itself, and so has what
is remembered. Every operation keeps this, so it holds of every context that queries come by.

* `Frame.Aligned.take` and its companions — how frames are made from aligned frames;
* `Context.Intact` — what is kept while rows are looked at one after the other: only an aggregate takes
  rows away, and it leaves no views;
* `Step.ensures_mergePairs`, `Step.ensures_tryPairs`, `Step.ensures_leftJoin` — what a join leaves, by what
  its parts keep;
* `Step.lasting_aligned`, `Step.aligned_leftJoin` and their companions — every operation keeps
  alignment;
* `Context.Reachable.aligned` — every context that is come by through operations is aligned.
-/
import TableQuery.Proofs.Joined
import TableQuery.Proofs.Lasting
import TableQuery.Proofs.Merge

namespace TableQuery

namespace Frame

theorem aligned_ofSize (n : Nat) : (ofSize n).Aligned := fun p hp => by cases hp

/-- The places are those of rows, if there are views at all. -/
def Fits (f : Frame) (places : List Nat) : Prop := (∀ p ∈ places, p < f.size) ∨ f.views = []

theorem Aligned.take {f : Frame} (h : f.Aligned) {places : List Nat} (hp : f.Fits places) :
    (f.take places).Aligned := by
  intro p hmem
  obtain ⟨⟨table, v⟩, hv, rfl⟩ := List.mem_map.mp hmem
  obtain hp | hnil := hp
  · rw [size_take]
    exact v.size_take fun i hi => h (table, v) hv ▸ hp i hi
  · rw [hnil] at hv
    cases hv

theorem Aligned.push {f : Frame} (h : f.Aligned) (table : String) {v : View}
    (hv : v.size = f.size) : (f.push table v).Aligned := by
  intro p hp
  obtain hp | hp := List.mem_append.mp hp
  · exact h p hp
  · rw [List.mem_singleton.mp hp]
    exact hv

end Frame

namespace Context

theorem rebuildFields_eq (c : Context) : ∃ direct ambiguous,
    c.rebuildFields = { c with direct := direct, ambiguous := ambiguous } := by
  have hfold : ∀ (views : List (String × View)) (d : Context), ∃ direct ambiguous,
      views.foldl (fun c p => c.registerFields p.1 p.2.fields) d =
        { d with direct := direct, ambiguous := ambiguous } := by
    intro views
    induction views with
    | nil => exact fun d => ⟨d.direct, d.ambiguous, rfl⟩
    | cons p views ih =>
      intro d
      obtain ⟨direct, ambiguous, hd⟩ := d.registerFields_eq p.1 p.2.fields
      obtain ⟨direct', ambiguous', hv⟩ := ih (d.registerFields p.1 p.2.fields)
      exact ⟨direct', ambiguous', by rw [List.foldl_cons, hv, hd]⟩
  exact hfold c.frame.views _

theorem aligned_replaceFrame (c : Context) {f : Frame} (h : f.Aligned) :
    (c.replaceFrame f).Aligned := ⟨h, size_memo_replaceFrame c f⟩

theorem Aligned.reorder {c : Context} (h : c.Aligned) {places : List Nat}
    (hp : c.frame.Fits places) : (c.reorder places).Aligned :=
  ⟨h.frame.take hp, (size_memo_reorder c places).trans (size_reorder c places).symm⟩

theorem Aligned.rebuildFields {c : Context} (h : c.Aligned) : c.rebuildFields.Aligned := by
  obtain ⟨direct, ambiguous, hc⟩ := c.rebuildFields_eq
  rw [hc]
  exact ⟨h.frame, h.memo⟩

theorem Aligned.registerFields {c : Context} (h : c.Aligned) (table : String)
    (fields : List String) : (c.registerFields table fields).Aligned := by
  obtain ⟨direct, ambiguous, hc⟩ := c.registerFields_eq table fields
  rw [hc]
  exact ⟨h.frame, h.memo⟩

@[simp] theorem frame_rebuildFields (c : Context) : c.rebuildFields.frame = c.frame := by
  obtain ⟨direct, ambiguous, hc⟩ := c.rebuildFields_eq
  rw [hc]

theorem views_collapse (c : Context) : c.collapse.frame.views = [] := by
  rw [collapse, frame_rebuildFields]

theorem Aligned.collapse {c : Context} (h : c.Aligned) : c.collapse.Aligned := by
  refine Aligned.rebuildFields ⟨fun p hp => (by cases hp), ?_⟩
  have hmemo := h.memo
  rw [size, Frame.size] at hmemo
  simp [size, Frame.size, hmemo]

theorem Aligned.noted {c : Context} (h : c.Aligned) {new : Frame → Prop} {f : Frame}
    (hf : c.frame.Noted new f) :
    Aligned { c with frame := f } :=
  ⟨fun p hp => (h.frame p (hf.views ▸ hp)).trans hf.size.symm, h.memo.trans hf.size.symm⟩

theorem aligned_empty : Aligned {} := ⟨fun p hp => (by cases hp), rfl⟩

/-- An aligned context whose rows are all there, unless there are no views either. -/
def Intact (n : Nat) (c : Context) : Prop := c.Aligned ∧ (c.size = n ∨ c.frame.views = [])

theorem Intact.fits {n : Nat} {c : Context} (h : c.Intact n) {places : List Nat}
    (hp : ∀ p ∈ places, p < n) : c.frame.Fits places :=
  h.2.imp_left fun (hsize : c.frame.size = n) p hmem => hsize.symm ▸ hp p hmem

end Context

namespace Step

theorem steady_intact (engine : Engine) (n : Nat) : Steady engine True (Context.Intact n) where
  note h := ⟨⟨h.1.frame, h.1.memo⟩, h.2⟩
  remember {c} i label v h := by
    have ht := (Context.Touched.refl (fun _ => True) c).remember (i := i) trivial engine label v
    exact ⟨ht.aligned h.1, by rw [ht.size, ht.frame]; exact h.2⟩
  groupOf _ i := by
    intro c g d hc he
    obtain ⟨-, -, rfl⟩ | ⟨-, -, rfl⟩ := groupOf_eq_ok he
    · exact ⟨⟨hc.1.frame, hc.1.memo⟩, hc.2⟩
    · exact ⟨hc.1.collapse, .inr (Context.views_collapse c)⟩

/-! ### Operations -/

variable {engine : Engine}

/-- What a loop over rows leaves. -/
theorem intact_rows {α : Type} {action : Nat → Step α} (n : Nat)
    (h : ∀ i, Ensures (Context.Intact n) (action i) fun _ => Context.Intact n) :
    Ensures (fun c => c.Aligned ∧ c.size = n) (rows action) fun as d =>
      d.Intact n ∧ as.size ≤ n :=
  (Ensures.rows h).mono (fun _ hc => ⟨⟨hc.1, .inl hc.2⟩, Nat.le_of_eq hc.2⟩) fun _ _ hd => hd

theorem aligned_addView (table : String) (v : View) :
    Ensures Context.Aligned (addView table v) fun _ => Context.Aligned := by
  rw [addView]
  refine .get_bind fun c hc => ?_
  -- a view can be added to a context that has as many rows
  have hpush : Ensures (fun d => d.Aligned ∧ d.size = v.size) (modify fun d =>
      let e := d.registerFields table v.fields
      { e with frame := e.frame.push table v }) fun _ => Context.Aligned := by
    refine .modify _ fun d hd => ?_
    have hfields := hd.1.registerFields table v.fields
    have hsize : v.size = (d.registerFields table v.fields).frame.size := by
      rw [Context.frame_registerFields]
      exact hd.2.symm
    exact ⟨hfields.frame.push table hsize, hfields.memo⟩
  by_cases hdup : (c.frame.view? table).isSome = true
  · simp only [hdup, if_true]
    exact .throw_bind _ _
  cases c.hasSource with
  | false =>
    simp only [hdup, Bool.not_false, Bool.false_eq_true, if_true, if_false]
    -- the first view decides how many rows there are
    refine (Ensures.set (Q := fun _ d => d.Aligned ∧ d.size = v.size) _ ?_).bind fun _ => hpush
    have haligned := c.aligned_replaceFrame (Frame.aligned_ofSize v.size)
    exact ⟨⟨haligned.frame, haligned.memo⟩, Frame.size_ofSize v.size⟩
  | true =>
    by_cases hsize : v.size = c.size
    · simp only [hdup, hsize, ne_eq, not_true_eq_false, Bool.not_true,
        Bool.false_eq_true, if_false]
      refine hpush.mono (fun d (hd : d = c) => ?_) fun _ _ h => h
      exact hd ▸ ⟨hc, hsize.symm⟩
    · simp only [hdup, hsize, ne_eq, not_false_eq_true, Bool.not_true,
        Bool.false_eq_true, if_true, if_false]
      exact .throw_bind _ _

theorem aligned_singleRow : Ensures Context.Aligned singleRow fun _ => Context.Aligned := by
  refine .modify _ fun c hc => ?_
  dsimp only
  split
  · exact hc
  · have haligned := c.aligned_replaceFrame (Frame.aligned_ofSize 1)
    exact ⟨haligned.frame, haligned.memo⟩

/-- Every operation on rows keeps alignment. While rows are looked at, they are all there unless there
are no views either. -/
theorem lasting_aligned (engine : Engine) : Lasting engine (fun _ => True) Context.Aligned
    fun n c => ∃ size, c.Intact size ∧ n ≤ size where
  operand _ _ := trivial
  values _ := .of_size fun n => (intact_rows n fun i =>
    (steady_intact engine n).values (fun _ _ => .inl trivial) i false).mono (fun _ h => h)
    fun _ _ h => ⟨n, h⟩
  holds _ := .of_size fun n => (intact_rows n fun i =>
    (steady_intact engine n).holds (.inl trivial) i).mono (fun _ h => h) fun _ _ h => ⟨n, h⟩
  filtered {c n places} h hp := by
    obtain ⟨size, hc, hsize⟩ := h
    have hfits := hc.fits fun p hmem => Nat.lt_of_lt_of_le (hp p hmem) hsize
    have haligned := c.aligned_replaceFrame (hc.1.frame.take hfits)
    exact ⟨haligned.frame, haligned.memo⟩
  sorted h hp := by
    obtain ⟨size, hc, hsize⟩ := h
    have haligned := hc.1.reorder (hc.fits fun p hmem => Nat.lt_of_lt_of_le (hp p hmem) hsize)
    exact ⟨haligned.frame, haligned.memo⟩
  partitioned h hf := by
    obtain ⟨size, hc, -⟩ := h
    have haligned := hc.1.noted hf
    exact ⟨haligned.frame, haligned.memo⟩
  noted h hf := h.noted hf
  limited h hp := h.reorder (.inl hp)

/-! ### Groups -/

theorem aligned_groupsOf (buckets : List Bucket) :
    Ensures Context.Aligned (groupsOf buckets) fun groups c =>
      c.Aligned ∧ groups.length = buckets.length := by
  rw [groupsOf]
  exact .get_bind fun c hc => .pure _ fun d (hd : d = c) => ⟨hd ▸ hc, List.length_map _⟩

/-- Every view that grouping leaves has one row for each group. -/
theorem aligned_collapseTo (c : Context) (columns : List KeyColumn) {buckets : List Bucket}
    {groups : List Group} (h : groups.length = buckets.length) :
    (c.collapseTo columns buckets groups).Aligned := by
  refine Context.Aligned.rebuildFields ?_
  refine ⟨fun p hp => ?_, Array.size_replicate⟩
  obtain ⟨q, -, rfl⟩ := List.mem_map.mp hp
  show (buckets.map _).toArray.size = ((buckets.zip groups).map _).toArray.size
  simp [h]

theorem aligned_groupBy (keys : List Expr) :
    Ensures Context.Aligned (groupBy engine keys) fun _ => Context.Aligned := by
  rw [groupBy]
  refine Ensures.bind (Q := fun _ => Context.Aligned)
    (((lasting_aligned engine).buckets fun _ _ => trivial).mono (fun _ hc => hc) ?_)
    fun buckets => ?_
  · rintro _ d ⟨_, ⟨_, hd, -⟩, -⟩
    exact hd.1
  refine (aligned_groupsOf buckets).bind fun groups => ?_
  refine .get_bind fun c hc => ?_
  refine (Ensures.lift (Q := fun _ d => d = c) _ fun d _ hd _ => hd).bind fun columns => ?_
  have haligned := aligned_collapseTo c columns hc.2
  refine (Ensures.set (Q := fun _ => Context.Aligned) _ ?_).bind fun _ => .pure _ fun _ h => h
  exact ⟨haligned.frame, haligned.memo⟩

/-! ### Joins -/

/-- What looks at rows keep is kept when candidates are found by merging. They have rows of the context on
the left. -/
theorem ensures_mergePairs {I : Context → Prop} {n : Nat} {key : Expr}
    (hkey : ∀ i < n, Ensures I ((key.evaluator engine).value engine i false) fun _ => I)
    (right : View) (field : String) :
    Ensures (fun c => I c ∧ c.size = n) (mergePairs engine key right field)
      fun candidates c => I c ∧ ∀ p ∈ candidates, p.1 < n := by
  rw [mergePairs]
  refine .get_bind fun c hc => ?_
  have hkeys : Ensures I ((List.range c.size).mapM fun i => do
      return (← (key.evaluator engine).value engine i false, i))
      fun left d => I d ∧ ∀ l ∈ left, l.2 < n := by
    refine .mapM _ fun i hi => ?_
    have hlt : i < n := hc.2 ▸ List.mem_range.mp hi
    exact (hkey i hlt).bind fun x => .pure _ fun d hd => ⟨hd, hlt⟩
  refine (hkeys.mono (fun d (hd : d = c) => hd ▸ hc.1) fun _ _ h => h).bind fun left => ?_
  refine .pure _ fun d hd => ⟨hd.1, fun p hp => ?_⟩
  obtain ⟨l, hl, hfst⟩ := exists_of_mem_mergeKeys hp
  exact hfst ▸ hd.2 l hl

/-- What looks at the pairs keep is kept when candidates are tried, but the rows are as before afterwards.
The pairs that are left have rows of candidates on the left. -/
theorem ensures_tryPairs {I : Context → Prop} {c : Context} {candidates : List RowPair}
    {table : String} {right : View} {on : Expr} (hstart : I (c.joined table right candidates))
    (hholds : ∀ q ∈ candidates.zipIdx, Ensures I ((on.evaluator engine).holds engine q.2) fun _ => I) :
    Ensures (· = c) (tryPairs engine candidates table right on) fun pairs d =>
      (∃ e, I e ∧ d = { e with frame := c.frame, memo := c.memo }) ∧
        ∀ p ∈ pairs, ∃ q ∈ candidates, q.1 = p.1 := by
  rw [tryPairs]
  refine .get_bind fun d (hd : d = c) => ?_
  subst hd
  refine (Ensures.set (Q := fun _ => I) _ hstart).bind fun _ => ?_
  refine Ensures.bind (Q := fun tried e => I e ∧ ∀ t ∈ tried, ∃ q ∈ candidates, q.1 = t.1.1)
    (.mapM _ fun q hq => ?_) fun tried => ?_
  · have hmem := List.fst_mem_of_mem_zipIdx hq
    refine .ite (fun _ => ?_) fun _ => .pure _ fun _ he => ⟨he, q.1, hmem, rfl⟩
    exact (hholds q hq).bind fun b => .pure _ fun _ he => ⟨he, q.1, hmem, rfl⟩
  · refine Ensures.bind (Q := fun _ e' => (∃ e, I e ∧ e' = { e with frame := d.frame, memo := d.memo }) ∧
      ∀ t ∈ tried, ∃ q ∈ candidates, q.1 = t.1.1) (.modify _ fun e he => ⟨⟨e, he.1, rfl⟩, he.2⟩)
      fun _ => .pure _ fun e he => ⟨he.1, fun p hp => ?_⟩
    obtain ⟨t, ht, hfst⟩ := exists_of_mem_outerPairs hp
    exact hfst ▸ he.2 t ht

/-- The rows are those from before the candidates were tried. -/
theorem frame_tryPairs (P : Frame → Prop) (candidates : List RowPair) (table : String) (right : View)
    (on : Expr) : Ensures (fun c => P c.frame) (tryPairs engine candidates table right on)
      fun _ c => P c.frame := by
  intro c pairs d hc he
  obtain ⟨⟨e, -, rfl⟩, -⟩ := ensures_tryPairs (I := fun _ => True) trivial (fun _ _ => .trivial _) rfl he
  exact hc

/-- The pairs that are left have rows of the context on the left, and the context is as before. -/
theorem intact_tryPairs {n : Nat} {candidates : List RowPair} (hc : ∀ p ∈ candidates, p.1 < n)
    (table : String) (right : View) (on : Expr) :
    Ensures (Context.Intact n) (tryPairs engine candidates table right on)
      fun pairs c => c.Intact n ∧ ∀ p ∈ pairs, p.1 < n := by
  intro c pairs d hintact he
  obtain ⟨⟨e, -, rfl⟩, hpairs⟩ := ensures_tryPairs (I := fun _ => True) trivial
    (fun _ _ => .trivial _) rfl he
  refine ⟨⟨⟨hintact.1.frame, hintact.1.memo⟩, hintact.2⟩, fun p hp => ?_⟩
  obtain ⟨q, hq, hfst⟩ := hpairs p hp
  exact hfst ▸ hc q hq

/-- What a left join leaves follows from what is left when candidates are found, and when they are
tried. -/
theorem ensures_leftJoin {aliases : List String} {table : String} {right : View} {on : Expr}
    {P R : Context → Prop} {K Q : List RowPair → Context → Prop}
    (hempty : ∀ c, P c → c.frame.view? table = none →
      Q ((List.range c.size).map fun i => (i, none)) c)
    (hall : ∀ c, P c → c.frame.view? table = none → K (allPairs c.size right.size) c)
    (hmerge : ∀ c key field, P c → c.frame.view? table = none →
      c.equalityKeys? on aliases table right = some (key, field) →
      Ensures (· = c) (mergePairs engine key right field) K)
    (htry : ∀ candidates, Ensures (K candidates) (tryPairs engine candidates table right on) Q)
    (hjoin : ∀ pairs c, Q pairs c → R { (c.registerFields table right.fields).replaceFrame
      ((c.frame.take (pairs.map Prod.fst)).push table (right.paired pairs)) with
        sawPlainColumn := false }) :
    Ensures P (leftJoin engine aliases table right on) fun _ => R := by
  rw [leftJoin]
  refine .get_bind fun c hc => ?_
  have hlast : ∀ pairs : List RowPair, Ensures (Q pairs) (do
      modify fun d =>
        let frame := (d.frame.take (pairs.map Prod.fst)).push table (right.paired pairs)
        { (d.registerFields table right.fields).replaceFrame frame with sawPlainColumn := false }
      return aliases ++ [table]) fun _ => R := by
    intro pairs
    exact (Ensures.modify (Q := fun _ => R) _ (hjoin pairs)).bind fun _ => .pure _ fun _ h => h
  -- an alias that is taken, no rows on one side, and candidates from all pairs or from equal keys
  cases hview : c.frame.view? table with
  | some v => exact .throw_bind _ _
  | none =>
    simp only [Option.isSome_none, Bool.false_eq_true, if_false]
    by_cases hrows : c.size = 0 ∨ right.size = 0
    · simp only [hrows, if_true]
      exact (hlast _).mono (fun d (hd : d = c) => hd ▸ hempty c hc hview) fun _ _ h => h
    · simp only [hrows, if_false]
      cases hfound : c.equalityKeys? on aliases table right with
      | none =>
        refine ((htry _).mono (fun d (hd : d = c) => ?_) fun _ _ h => h).bind hlast
        exact hd ▸ hall c hc hview
      | some found =>
        refine (hmerge c found.1 found.2 hc hview hfound).bind fun candidates => ?_
        exact (htry candidates).bind hlast

theorem aligned_leftJoin (aliases : List String) (table : String) (right : View) (on : Expr) :
    Ensures Context.Aligned (leftJoin engine aliases table right on) fun _ => Context.Aligned := by
  refine .of_size fun n => ?_
  have hstart : ∀ c : Context, c.Aligned ∧ c.size = n → c.Intact n := fun c hc => ⟨hc.1, .inl hc.2⟩
  refine ensures_leftJoin (K := fun candidates d => d.Intact n ∧ ∀ p ∈ candidates, p.1 < n)
    (Q := fun pairs d => d.Intact n ∧ ∀ p ∈ pairs, p.1 < n) (fun c hc _ => ⟨hstart c hc, fun p hp => ?_⟩)
    (fun c hc _ => ⟨hstart c hc, fun p hp => hc.2 ▸ (mem_allPairs hp).1⟩)
    (fun c key field hc _ _ => (ensures_mergePairs (fun i _ =>
      (steady_intact engine n).evaluate (.inl trivial) i false) right field).mono
        (fun d (hd : d = c) => hd ▸ ⟨hstart c hc, hc.2⟩) fun _ _ h => h)
    (fun candidates d a e hd he => intact_tryPairs hd.2 table right on hd.1 he) fun pairs d hd => ?_
  · obtain ⟨i, hi, rfl⟩ := List.mem_map.mp hp
    exact hc.2 ▸ List.mem_range.mp hi
  · have hfits : d.frame.Fits (pairs.map Prod.fst) := hd.1.fits fun i hi => by
      obtain ⟨p, hp, rfl⟩ := List.mem_map.mp hi
      exact hd.2 p hp
    have hframe := (hd.1.1.frame.take hfits).push table (v := right.paired pairs) (by simp)
    have haligned := (d.registerFields table right.fields).aligned_replaceFrame hframe
    exact ⟨haligned.frame, haligned.memo⟩

/-! ### Selection -/

/-- Whatever is selected, the context is as new afterwards. -/
theorem fresh_project (exprs : List Expr) (names : List String) :
    Ensures (fun _ => True) (project engine exprs names) fun _ d => d = {} := by
  have hreset : ∀ v : View, Ensures (fun _ => True) (do reset; return v) fun _ d => d = {} :=
    fun v => (Ensures.set (Q := fun _ d => d = {}) _ rfl).bind fun _ => .pure _ fun _ h => h
  have hrows : Ensures (fun _ => True) (do
      let found ← rows fun i => do
        let values ← Evaluator.values engine (Expr.evaluators engine exprs) i false
        return Labelled.ofList (names.zip values)
      let c ← get
      reset
      return (⟨names, if c.sourceEmpty && !c.aggregated then #[] else found⟩ : View))
      fun _ d => d = {} := by
    refine (Ensures.trivial _).bind fun found => .get_bind fun c _ => ?_
    exact (hreset _).mono (fun _ _ => True.intro) fun _ _ h => h
  rw [project]
  refine .get_bind fun c _ => ?_
  split
  · exact (hreset _).mono (fun _ _ => True.intro) fun _ _ h => h
  · split
    · exact (Ensures.trivial _).bind fun _ => hrows
    · exact hrows.mono (fun _ _ => True.intro) fun _ _ h => h

theorem fresh_selectAll (items : List SelectItem) (order : List OrderItem) (bounds : Option Limit) :
    Ensures (fun _ => True) (selectAll engine items order bounds) fun _ d => d = {} := by
  rw [selectAll]
  refine .get_bind fun c _ => ?_
  refine (Ensures.trivial _).bind fun exprs => (Ensures.trivial _).bind fun names => ?_
  refine (Ensures.trivial _).bind fun _ => (Ensures.trivial _).bind fun _ => ?_
  exact (Ensures.trivial _).bind fun _ => fresh_project exprs names

theorem fresh_select (items : List SelectItem) (quantifier : Option Quantifier)
    (order : List OrderItem) (bounds : Option Limit) :
    Ensures (fun _ => True) (select engine items quantifier order bounds) fun _ d => d = {} := by
  rw [select.eq_def]
  split
  · exact fresh_selectAll items order bounds
  · exact (fresh_selectAll items [] none).bind fun v => .lift _ fun _ _ hc _ => hc
  · exact .throw _

end Step

/-! ### Contexts that are come by -/

/-- What can be done with a context. -/
inductive Operation where
  | reset
  | addView (table : String) (v : View)
  | singleRow
  | leftJoin (aliases : List String) (table : String) (right : View) (on : Expr)
  | filter (condition : Expr)
  | groupBy (keys : List Expr)
  | partitionBy (keys : List Expr)
  | window (e : Expr)
  | orderBy (items : List OrderItem)
  | limit (bounds : Limit)
  | evaluate (e : Expr) (row : Nat) (inAggregate : Bool)
  | select (items : List SelectItem) (quantifier : Option Quantifier) (order : List OrderItem)
    (bounds : Option Limit)

/-- The operation as a step. -/
def Operation.run (engine : Engine) : Operation → Step Unit
  | reset => Step.reset
  | addView table v => Step.addView table v
  | singleRow => Step.singleRow
  | leftJoin aliases table right on => discard (Step.leftJoin engine aliases table right on)
  | filter condition => Step.filter engine condition
  | groupBy keys => discard (Step.groupBy engine keys)
  | partitionBy keys => discard (Step.partitionBy engine keys)
  | window e => Step.computeWindow engine e
  | orderBy items => discard (Step.orderBy engine items)
  | limit bounds => Step.limit bounds
  | evaluate e row inAggregate => discard (Step.evaluate engine e row inAggregate)
  | select items quantifier order bounds =>
    discard (Step.select engine items quantifier order bounds)

/-- The contexts that are come by from new ones, or from the rows of an aligned frame, by operations
one after the other. -/
inductive Context.Reachable (engine : Engine) : Context → Prop
  | start : Reachable engine {}
  | ofFrame {f : Frame} : f.Aligned → Reachable engine (.ofFrame f)
  | step {c d : Context} (o : Operation) :
      Reachable engine c → o.run engine c = .ok () d → Reachable engine d

/-- Every operation keeps the views as long as their rows. -/
theorem Operation.aligned_run (engine : Engine) (o : Operation) :
    Step.Ensures Context.Aligned (o.run engine) fun _ => Context.Aligned := by
  cases o with
  | reset => exact .set _ Context.aligned_empty
  | addView table v => exact Step.aligned_addView table v
  | singleRow => exact Step.aligned_singleRow
  | leftJoin aliases table right on => exact (Step.aligned_leftJoin aliases table right on).discard
  | filter condition => exact (Step.lasting_aligned engine).filter trivial
  | groupBy keys => exact (Step.aligned_groupBy keys).discard
  | partitionBy keys => exact ((Step.lasting_aligned engine).partitionBy fun _ _ => trivial).discard
  | window e => exact (Step.lasting_aligned engine).computeWindow e fun _ _ => trivial
  | orderBy items => exact ((Step.lasting_aligned engine).orderBy fun _ _ => Step.admitted_all).discard
  | limit bounds => exact (Step.lasting_aligned engine).limit bounds
  | evaluate e row inAggregate =>
    refine Step.Ensures.discard (.of_size fun n => ?_)
    exact ((Step.steady_intact engine n).evaluate (.inl trivial) row inAggregate).mono
      (fun _ hc => ⟨hc.1, .inl hc.2⟩) fun _ _ hd => hd.1
  | select items quantifier order bounds =>
    refine Step.Ensures.discard ((Step.fresh_select items quantifier order bounds).mono
      (fun _ _ => trivial) fun _ d hd => ?_)
    exact hd ▸ Context.aligned_empty

/-- Views are as long as their rows in every context that is come by. -/
theorem Context.Reachable.aligned {engine : Engine} {c : Context} (h : c.Reachable engine) :
    c.Aligned := by
  induction h with
  | start => exact aligned_empty
  | ofFrame hf => exact Aligned.rebuildFields ⟨hf, Array.size_replicate⟩
  | step o _ hrun ih => exact o.aligned_run engine ih hrun

namespace Context

/-- The context after an operation, or as it is if that fails. -/
def after (engine : Engine) (c : Context) (o : Operation) : Context :=
  match o.run engine c with
  | .ok _ d => d
  | .error _ _ => c

theorem Reachable.after {engine : Engine} {c : Context} (h : c.Reachable engine) (o : Operation) :
    (c.after engine o).Reachable engine := by
  rw [Context.after]
  split
  · exact h.step o ‹_›
  · exact h

end Context

end TableQuery
