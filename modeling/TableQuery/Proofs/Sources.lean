/-
What queries start from.

* `Context.Vacant` — a context without rows, which filters, windows, sorting and limits leave as it
  is;
* `Context.marks` — what is noted about groups, which no operation but grouping changes;
* `Context.Forgotten` — nothing is remembered about any row, as it is between the parts of a query;
* `Context.Loaded` — what the source of a query leaves (`Statement.loaded_loadSource`) and its
  condition keeps;
* `Context.Bare` — rows of which nothing is known but their cells, as they come from a source
  (`Statement.bare_loadSource`).
-/
import TableQuery.Proofs.Alignment
import TableQuery.Proofs.EqualityKeys
import TableQuery.Statement.Execution

namespace TableQuery

/-! ### All rows -/

theorem Frame.eq_of_views_of_rows {f g : Frame} (hviews : f.views = g.views)
    (hrows : f.rows = g.rows) : f = g := by
  cases f
  cases g
  cases hviews
  cases hrows
  rfl

theorem toArray_map_range {α : Type} (xs : Array α) (x : α) :
    ((List.range xs.size).map fun i => (xs[i]?).getD x).toArray = xs := by
  refine Array.ext (by simp) fun i hi hi' => ?_
  simp [hi']

theorem View.take_range (v : View) : v.take (List.range v.size) = v := by
  obtain ⟨fields, rows⟩ := v
  have hrows : (List.range rows.size).filterMap (rows[·]?) =
      (List.range rows.size).map fun i => (rows[i]?).getD .empty := by
    refine List.filterMap_eq_map_iff_forall_eq_some.mpr fun i hi => ?_
    simp [List.mem_range.mp hi]
  simp only [take, size, hrows, toArray_map_range]

theorem Frame.Aligned.take_range {f : Frame} (h : f.Aligned) : f.take (List.range f.size) = f := by
  refine Frame.eq_of_views_of_rows ?_ (toArray_map_range f.rows _)
  refine (List.map_congr_left fun p hp => ?_).trans (List.map_id _)
  show (p.1, p.2.take _) = p
  rw [← h p hp, p.2.take_range]

theorem Context.Aligned.reorder_range {c : Context} (h : c.Aligned) :
    c.reorder (List.range c.size) = c := by
  have hmemo := toArray_map_range c.memo .empty
  rw [h.memo] at hmemo
  rw [Context.reorder, hmemo, size, h.frame.take_range]

/-! ### Contexts without rows -/

/-- There are no rows, and no plain column was noticed. -/
structure Context.Vacant (c : Context) : Prop where
  aligned : c.Aligned
  size : c.size = 0
  unseen : c.sawPlainColumn = false

namespace Context.Vacant

open Step

variable {engine : Engine} {c : Context} (h : c.Vacant)
include h

theorem take_nil : c.frame.take [] = c.frame := by
  have hviews : (c.frame.take []).views = c.frame.views := by
    refine (List.map_congr_left fun p hp => ?_).trans (List.map_id _)
    obtain ⟨table, fields, rows⟩ := p
    have hsize : rows.size = 0 := (h.aligned.frame _ hp).trans h.size
    rw [Array.eq_empty_of_size_eq_zero hsize]
    rfl
  have hrows : (c.frame.take []).rows = c.frame.rows :=
    (Array.eq_empty_of_size_eq_zero h.size).symm
  exact Frame.eq_of_views_of_rows hviews hrows

theorem memo_eq : c.memo = #[] :=
  Array.eq_empty_of_size_eq_zero (h.aligned.memo.trans h.size)

theorem reorder_nil : c.reorder [] = c := by
  rw [reorder, h.take_nil, List.map_nil, ← h.memo_eq]

theorem replaceFrame_nil : c.replaceFrame (c.frame.take []) = c := by
  have hsize : c.frame.size = 0 := h.size
  rw [replaceFrame, h.take_nil, hsize, Array.replicate_zero, ← h.memo_eq]

theorem forget : { c with sawPlainColumn := false } = c := by rw [← h.unseen]

theorem rows_eq {α : Type} (action : Nat → Step α) : Step.rows action c = .ok #[] c := by
  rw [Step.rows, get_bind, h.size]
  rfl

theorem filter_eq (e : Expr) : Step.filter engine e c = .ok () c := by
  rw [Step.filter, bind_of_ok (h.rows_eq _)]
  show EStateM.Result.ok () { c.replaceFrame (c.frame.take []) with sawPlainColumn := false } = _
  rw [h.replaceFrame_nil, h.forget]

theorem computeWindow_eq (e : Expr) : Step.computeWindow engine e c = .ok () c := by
  have hrows : c.frame.rows[0]? = none :=
    Array.getElem?_eq_none (Nat.le_of_eq h.size)
  induction e using Expr.operands_induction with
  | step e ih =>
  cases e with
  | window f p o x =>
    rw [Step.computeWindow, windowResults, get_bind, hrows]
    rfl
  | aliased e name =>
    rw [Step.computeWindow]
    exact ih e (by simp [Expr.operands])
  | paren e =>
    rw [Step.computeWindow]
    exact ih e (by simp [Expr.operands])
  | _ =>
    rw [Step.computeWindow]
    · rfl
    all_goals simp

omit h in
theorem forM_eq {β : Type} {f : β → Step PUnit} (hf : ∀ b, f b c = .ok ⟨⟩ c) (l : List β) :
    l.forM f c = .ok ⟨⟩ c := by
  induction l with
  | nil => rfl
  | cons b l ih =>
    show (f b >>= fun _ => l.forM f) c = _
    rw [bind_of_ok (hf b), ih]

theorem computeOrderWindows_eq (items : List OrderItem) :
    Step.computeOrderWindows engine items c = .ok () c := by
  induction items with
  | nil => rw [Step.computeOrderWindows]; rfl
  | cons item items ih =>
    obtain ⟨e, d⟩ := item
    rw [Step.computeOrderWindows, bind_of_ok (h.computeWindow_eq e), ih]

theorem sortRows_eq (items : List OrderItem) : Step.sortRows engine items c = .ok ⟨[], []⟩ c := by
  rw [Step.sortRows, bind_of_ok (h.rows_eq _), get_bind]
  have hsorted : sortKeys (items.map OrderItem.direction)
      (#[].toList.take c.size) = [] := by rw [sortKeys]; simp
  simp only [hsorted]
  show EStateM.Result.ok _ { c.reorder [] with sawPlainColumn := false } = _
  rw [h.reorder_nil, h.forget]
  rfl

theorem arrange_eq (exprs : List Expr) (order : List OrderItem) :
    Step.arrange engine exprs order c = .ok () c := by
  rw [Step.arrange]
  by_cases hempty : (!order.isEmpty) = true
  · rw [if_pos hempty, get_bind, Step.orderBy]
    refine discard_of_ok (a := ⟨[], []⟩) ?_
    rw [bind_of_ok (h.computeOrderWindows_eq _), h.sortRows_eq]
  · rw [if_neg hempty]
    rfl

end Context.Vacant

/-! ### Sources -/

/-- What is noted about groups and about rows that stand in for none. -/
def Context.marks (c : Context) : Bool × Bool × Option Frame :=
  (c.grouped, c.sourceEmpty, c.emptyGroup)

theorem Context.marks_registerFields (c : Context) (table : String) (fields : List String) :
    (c.registerFields table fields).marks = c.marks := by
  obtain ⟨direct, ambiguous, hc⟩ := c.registerFields_eq table fields
  rw [hc]
  rfl

theorem Context.marks_rebuildFields (c : Context) : c.rebuildFields.marks = c.marks := by
  obtain ⟨direct, ambiguous, hc⟩ := c.rebuildFields_eq
  rw [hc]
  rfl

/-! ### Between the parts of a query -/

/-- Nothing is remembered about any row. -/
def Context.Forgotten (c : Context) : Prop := c.memo = .replicate c.size .empty

theorem Context.Forgotten.memo {c : Context} (h : c.Forgotten) {i : Nat} (hi : i < c.size) :
    c.memo[i]? = some .empty := by
  rw [h]
  simp [hi]

/-- Where nothing is remembered only the keys of groups are found. -/
theorem Context.Forgotten.remembered? {c : Context} (h : c.Forgotten) (engine : Engine) (i : Nat)
    (label : String) :
    c.remembered? engine i label = (c.frame.rows[i]?).bind (·.keys.get? label) := by
  have hmemo : (c.memo[i]?).bind (·.get? label) = none := by
    rw [show c.memo = _ from h, Array.getElem?_replicate]
    split <;> rfl
  rw [Context.remembered?, hmemo, ite_self, Option.none_or]

theorem Step.forgotten_filter {engine : Engine} (e : Expr) :
    Ensures (fun _ => True) (filter engine e) fun _ => Context.Forgotten := by
  rw [filter]
  exact (Ensures.trivial _).bind fun _ => .modify _ fun _ _ => rfl

namespace Step

variable {engine : Engine} {m : Bool × Bool × Option Frame}

theorem steady_marks (engine : Engine) (m : Bool × Bool × Option Frame) :
    Steady engine True (·.marks = m) where
  note h := h
  remember {c} i label v h := by
    have ht := (Context.Touched.refl (fun _ => True) c).remember (i := i) trivial engine label v
    rw [Context.marks, ht.grouped, ht.sourceEmpty, ht.emptyGroup]
    exact h
  groupOf _ i := by
    intro c g d hc he
    obtain ⟨-, -, rfl⟩ | ⟨-, -, rfl⟩ := groupOf_eq_ok he
    · exact hc
    · exact (Context.marks_rebuildFields _).trans hc

theorem lasting_marks (engine : Engine) (m : Bool × Bool × Option Frame) :
    Lasting engine (fun e => True ∨ e.AggregateFree engine.functions) (·.marks = m)
      fun _ c => c.marks = m :=
  (steady_marks engine m).lasting (fun _ h => h) (fun _ h => h) (fun _ h => h) fun h _ => h

/-- Without aggregate functions it is not noted that one was called. -/
theorem steady_unaggregated (engine : Engine) : Steady engine False (·.aggregated = false) where
  note h := h
  remember {c} i label v h := by
    rw [Context.remember]
    split
    · exact h
    · exact h
  groupOf hagg := hagg.elim

/-- Finding candidates keeps what looks at rows keep. -/
theorem Steady.mergePairs {aggregates : Prop} {I : Context → Prop} (S : Steady engine aggregates I)
    {key : Expr} (hkey : key.AggregateFree engine.functions) (right : View) (field : String) :
    Ensures I (mergePairs engine key right field) fun _ => I :=
  .of_size fun _ => (ensures_mergePairs (fun i _ => S.evaluate (.inr hkey) i false) right field).mono
    (fun _ h => h) fun _ _ h => h.1

/-- Trying candidates keeps what looks at rows keep, if it does not depend on the rows. -/
theorem Steady.tryPairs {aggregates : Prop} {I : Context → Prop} (S : Steady engine aggregates I)
    (hrows : ∀ {c} frame memo, I c → I { c with frame := frame, memo := memo })
    {table : String} {right : View} {on : Expr}
    (hon : aggregates ∨ on.AggregateFree engine.functions) (candidates : List RowPair) :
    Ensures (fun c => I (c.registerFields table right.fields))
      (tryPairs engine candidates table right on) fun _ => I := by
  intro c pairs d hc he
  obtain ⟨⟨e, he', rfl⟩, -⟩ := ensures_tryPairs (hrows _ _ hc) (fun q _ => S.holds hon q.2) rfl he
  exact hrows _ _ he'

/-- A left join keeps what looks at rows keep, if it depends neither on the rows nor on the names of
fields, and leaves nothing remembered. -/
theorem Steady.leftJoin {aggregates : Prop} {I : Context → Prop} (S : Steady engine aggregates I)
    (hrows : ∀ {c} frame memo, I c → I { c with frame := frame, memo := memo })
    (hfields : ∀ {c} table fields, I c → I (c.registerFields table fields))
    (hunsee : ∀ {c}, I c → I { c with sawPlainColumn := false })
    (aliases : List String) (table : String) (right : View) {on : Expr}
    (hon : aggregates ∨ on.AggregateFree engine.functions) :
    Ensures I (leftJoin engine aliases table right on)
      fun _ c => I c ∧ c.sawPlainColumn = false ∧ c.Forgotten := by
  refine ensures_leftJoin (K := fun _ => I) (Q := fun _ => I) (fun c hc _ => hc) (fun c hc _ => hc)
    (fun c key field hc _ hfound => ?_) (fun candidates => ?_) fun pairs c hc => ⟨?_, rfl, rfl⟩
  · obtain ⟨-, o, -, -, ⟨hown, -⟩, -⟩ := Context.equalityKeys?_eq_some hfound
    have hkey := Context.aggregateFree_of_fieldOwner? engine.functions hown
    exact (S.mergePairs hkey right field).mono (fun d (hd : d = c) => hd ▸ hc) fun _ _ h => h
  · exact (S.tryPairs hrows hon candidates).mono (fun c hc => hfields table right.fields hc)
      fun _ _ h => h
  · exact hunsee (hrows _ _ (hfields table right.fields hc))

theorem marks_leftJoin (aliases : List String) (table : String) (right : View) (on : Expr) :
    Ensures (·.marks = m) (leftJoin engine aliases table right on)
      fun _ c => c.marks = m ∧ c.sawPlainColumn = false ∧ c.Forgotten :=
  (steady_marks engine m).leftJoin (fun _ _ h => h)
    (fun table fields h => (Context.marks_registerFields _ table fields).trans h) (fun h => h) aliases
    table right (.inl trivial)

/-- A left join whose condition calls no aggregate function does not note that one was called. -/
theorem unaggregated_leftJoin (aliases : List String) (table : String) (right : View) {on : Expr}
    (hon : on.AggregateFree engine.functions) :
    Ensures (·.aggregated = false) (leftJoin engine aliases table right on)
      fun _ c => c.aggregated = false := by
  refine ((steady_unaggregated engine).leftJoin (fun _ _ h => h) (fun {c} table fields h => ?_)
    (fun h => h) aliases table right (.inr hon)).mono (fun _ h => h) fun _ _ h => h.1
  obtain ⟨direct, ambiguous, hc⟩ := c.registerFields_eq table fields
  rw [hc]
  exact h

end Step

/-- What a source leaves: rows that are not grouped, and nothing noticed about them. -/
structure Context.Loaded (c : Context) : Prop where
  aligned : c.Aligned
  marks : c.marks = (false, false, none)
  unseen : c.sawPlainColumn = false
  forgotten : c.Forgotten

theorem Context.Loaded.sourceEmpty {c : Context} (h : c.Loaded) : c.sourceEmpty = false :=
  congrArg (·.2.1) h.marks

/-- A new context with rows, but without views. -/
def Context.ofSize (n : Nat) : Context :=
  { ({} : Context).replaceFrame (.ofSize n) with hasSource := true }

theorem Step.addView_new (table : String) (v : View) :
    addView table v {} = .ok () { (Context.ofSize v.size).registerFields table v.fields with
      frame := ((Context.ofSize v.size).registerFields table v.fields).frame.push table v } := rfl

theorem Step.loaded_addView {table : String} {v : View} {d : Context}
    (h : addView table v {} = .ok () d) : d.Loaded := by
  have haligned := aligned_addView table v Context.aligned_empty h
  obtain ⟨direct, ambiguous, hc⟩ := (Context.ofSize v.size).registerFields_eq table v.fields
  rw [addView_new, hc] at h
  cases h
  exact ⟨haligned, rfl, rfl, rfl⟩

theorem Step.unaggregated_addView {table : String} {v : View} {d : Context}
    (h : addView table v {} = .ok () d) : d.aggregated = false := by
  obtain ⟨direct, ambiguous, hc⟩ := (Context.ofSize v.size).registerFields_eq table v.fields
  rw [addView_new, hc] at h
  cases h
  rfl

/-- A join takes its rows from another source on the left. -/
@[elab_as_elim]
theorem Source.left_induction {P : Source → Prop} (nothing : P .nothing) (factor : ∀ f, P (.factor f))
    (leftJoin : ∀ left right on, P left → P (.leftJoin left right on)) (source : Source) :
    P source := by
  cases source with
  | nothing => exact nothing
  | factor f => exact factor f
  | leftJoin left right on =>
    exact leftJoin left right on (left_induction nothing factor leftJoin left)

theorem Statement.loaded_loadSource (engine : Engine) (tables : Tables) (source : Source) :
    Step.Ensures (· = {}) (loadSource engine tables source) fun _ => Context.Loaded := by
  induction source using Source.left_induction with
  | nothing =>
    rw [loadSource]
    refine Step.Ensures.bind (Q := fun _ => Context.Loaded) ?_ fun _ => .pure _ fun _ h => h
    refine .modify _ fun c hc => ?_
    subst hc
    exact ⟨⟨fun p hp => (by cases hp), rfl⟩, rfl, rfl, rfl⟩
  | factor f =>
    rw [loadSource]
    refine (Step.Ensures.lift (Q := fun _ c => c = {}) _ fun c _ hc _ => hc).bind fun v => ?_
    refine Step.Ensures.bind (Q := fun _ => Context.Loaded) ?_ fun _ => .pure _ fun _ h => h
    intro c a d hc he
    subst hc
    exact Step.loaded_addView he
  | leftJoin left right on ih =>
    rw [loadSource]
    refine ih.bind fun aliases => ?_
    refine (Step.Ensures.lift (Q := fun _ => Context.Loaded) _ fun c _ hc _ => hc).bind fun v => ?_
    intro c a d hc he
    obtain ⟨hmarks, hsaw, hmemo⟩ := Step.marks_leftJoin aliases right.name v on hc.marks he
    exact ⟨Step.aligned_leftJoin aliases right.name v on hc.aligned he, hmarks, hsaw, hmemo⟩

/-! ### Rows of a source -/

/-- Nothing is known about rows but their cells. -/
def Context.Bare (c : Context) : Prop := ∀ r ∈ c.frame.rows, r = {}

theorem Frame.bare_take {f : Frame} (h : ∀ r ∈ f.rows, r = {}) (places : List Nat) :
    ∀ r ∈ (f.take places).rows, r = {} := by
  intro r hr
  obtain ⟨i, -, rfl⟩ := List.mem_map.mp (List.mem_toArray.mp hr)
  cases hi : f.rows[i]? with
  | none => rfl
  | some r => exact h r (Array.mem_of_getElem? hi)

/-- What is known about a row of which nothing is known. -/
theorem Context.Bare.state {c : Context} (h : c.Bare) {α : Type} {f : RowState Frame → Option α}
    (hf : f {} = none) (i : Nat) : (c.frame.rows[i]?).bind f = none := by
  cases hi : c.frame.rows[i]? with
  | none => rfl
  | some r => rw [h r (Array.mem_of_getElem? hi), Option.bind_some, hf]

theorem Context.Bare.not_inGroup {c : Context} (h : c.Bare) (i : Nat) : ¬c.InGroup i := by
  rw [InGroup, h.state rfl i]
  exact Bool.false_ne_true

/-- Nothing is remembered about rows of which nothing is known. -/
theorem Context.Bare.remembered? {c : Context} (h : c.Bare) (hmemo : c.Forgotten) (engine : Engine)
    (i : Nat) (label : String) : c.remembered? engine i label = none := by
  rw [hmemo.remembered?, h.state rfl i]

namespace Step

variable {engine : Engine}

theorem bare_leftJoin (aliases : List String) (table : String) (right : View) (on : Expr) :
    Ensures Context.Bare (leftJoin engine aliases table right on) fun _ => Context.Bare := by
  have S : Steady engine False Context.Bare := by
    refine ⟨fun h => h, fun {c} i label v h => ?_, fun h => h.elim⟩
    rw [Context.remember]
    split <;> exact h
  refine ensures_leftJoin (K := fun _ => Context.Bare) (Q := fun _ => Context.Bare)
    (fun c hc _ => hc) (fun c hc _ => hc) (fun c key field hc _ hfound => ?_)
    (fun candidates => frame_tryPairs (fun f => ∀ r ∈ f.rows, r = {}) candidates table right on)
    fun pairs c hc => Frame.bare_take hc (pairs.map Prod.fst)
  obtain ⟨-, o, -, -, ⟨hown, -⟩, -⟩ := Context.equalityKeys?_eq_some hfound
  have hkey := Context.aggregateFree_of_fieldOwner? engine.functions hown
  -- the keys of rows are read without a look at other rows
  exact (S.mergePairs hkey right field).mono (fun d (hd : d = c) => hd ▸ hc) fun _ _ h => h

end Step

/-- The rows of a source are nothing but their cells. -/
theorem Statement.bare_loadSource (engine : Engine) (tables : Tables) (source : Source) :
    Step.Ensures (· = {}) (loadSource engine tables source) fun _ => Context.Bare := by
  induction source using Source.left_induction with
  | nothing =>
    rw [loadSource]
    refine Step.Ensures.bind (Q := fun _ => Context.Bare) (.modify _ fun c hc => ?_) fun _ =>
      .pure _ fun _ h => h
    subst hc
    intro r hr
    exact (Array.mem_replicate.mp hr).2
  | factor f =>
    rw [loadSource]
    refine (Step.Ensures.lift (Q := fun _ c => c = {}) _ fun c _ hc _ => hc).bind fun v => ?_
    refine Step.Ensures.bind (Q := fun _ => Context.Bare) ?_ fun _ => .pure _ fun _ h => h
    intro c a d hc he r hr
    subst hc
    obtain ⟨direct, ambiguous, hc⟩ := (Context.ofSize v.size).registerFields_eq f.name v.fields
    rw [Step.addView_new, hc] at he
    cases he
    exact (Array.mem_replicate.mp hr).2
  | leftJoin left right on ih =>
    rw [loadSource]
    refine ih.bind fun aliases => ?_
    refine (Step.Ensures.lift (Q := fun _ => Context.Bare) _ fun c _ hc _ => hc).bind fun v => ?_
    exact Step.bare_leftJoin aliases right.name v on

/-! ### Conditions -/

/-- The condition of a query keeps what its source leaves. -/
theorem Step.loaded_filter {engine : Engine} (e : Expr) :
    Ensures Context.Loaded (filter engine e) fun _ => Context.Loaded := by
  intro c a d hc he
  exact ⟨(lasting_aligned engine).filter trivial hc.aligned he,
    (lasting_marks engine _).filter (.inl trivial) hc.marks he,
    (lasting_unseen engine).filter trivial hc.unseen he, forgotten_filter e trivial he⟩

end TableQuery
