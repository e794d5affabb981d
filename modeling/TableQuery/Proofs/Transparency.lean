/-
Memory makes no difference.

A query is executed with values remembered, and once more with every value computed anew. If labels tell
apart what is evaluated for one clause, the results are the same, unless columns and aggregates are found
to be mixed when everything is computed anew: a remembered value is not looked at again, so that the
columns in it may go unnoticed.

* `Expr.Serves` — what is evaluated for an expression, windows included;
* `Statement.LabelsDiffer` — labels tell the expressions of each clause apart;
* `Statement.execute_recomputing` — the results are the same;
* `Statement.not_forall_execute_recomputing` — they need not be when a field has the label of an
  expression for its name.
-/
import TableQuery.Proofs.Parallel

namespace TableQuery

/-! ### Labels of a clause -/

namespace Expr

/-- What is evaluated for an expression right away: its operands, or for a window the arguments of its
call, the keys of its partition and what it is sorted by. -/
def parts : Expr → List Expr
  | window f keys order _ =>
    ((f.call?.map CallParts.arguments).getD []) ++ keys ++ order.map OrderItem.expr
  | e => e.operands

/-- The expression is evaluated for another one, in its row or for a window. -/
inductive Serves : Expr → Expr → Prop
  | self (e : Expr) : Serves e e
  | part {q p e : Expr} : p ∈ e.parts → Serves q p → Serves q e

theorem Serves.trans {q p e : Expr} (h : q.Serves p) (h' : p.Serves e) : q.Serves e := by
  induction h' with
  | self => exact h
  | part hp _ ih => exact .part hp ih

theorem mem_parts_of_mem_operands {e p : Expr} (h : p ∈ e.operands) : p ∈ e.parts := by
  cases e with
  | window => cases h
  | _ => exact h

/-- No two expressions that are evaluated for certain ones remember values under the same label. -/
def LabelsDiffer (roots : Expr → Prop) : Prop :=
  ∀ r s e q : Expr, roots r → roots s → e.Serves r → q.Serves s → e.isRemembered = true →
    q.isRemembered = true → e.label = q.label → e = q

/-- The expression is evaluated for certain ones, or it is a column. -/
def Evaluated (roots : Expr → Prop) (e : Expr) : Prop := (∃ r, roots r ∧ e.Serves r) ∨ e.IsColumn

theorem Evaluated.of_root {roots : Expr → Prop} {e : Expr} (h : roots e) : e.Evaluated roots :=
  .inl ⟨e, h, .self e⟩

theorem Evaluated.part {roots : Expr → Prop} {e p : Expr} (h : e.Evaluated roots)
    (hp : p ∈ e.parts) : p.Evaluated roots := by
  rcases h with ⟨r, hr, he⟩ | ⟨name, rfl⟩ | ⟨table, name, rfl⟩
  · exact .inl ⟨r, hr, .trans (.part hp (.self p)) he⟩
  · cases hp
  · cases hp

theorem Evaluated.serves {roots : Expr → Prop} {e : Expr} (h : e.Evaluated roots)
    (hr : e.isRemembered = true) : ∃ r, roots r ∧ e.Serves r := by
  rcases h with h | ⟨name, rfl⟩ | ⟨table, name, rfl⟩
  · exact h
  · cases hr
  · cases hr

theorem LabelsDiffer.family {roots : Expr → Prop} (h : LabelsDiffer roots) :
    Expr.Family (Evaluated roots) where
  operand he hp := he.part (mem_parts_of_mem_operands hp)
  eq_of_label he hq hr hs hlabel := by
    obtain ⟨r, hroot, he⟩ := he.serves hr
    obtain ⟨s, hroot', hq⟩ := hq.serves hs
    exact h r s _ _ hroot hroot' he hq hr hs hlabel

theorem LabelsDiffer.kin {roots : Expr → Prop} (h : LabelsDiffer roots)
    (hwindows : ∀ r f keys order extent, roots r → (window f keys order extent).Serves r →
      ∀ k ∈ keys, k.WindowFree) : Expr.Kin (Evaluated roots) where
  toFamily := h.family
  field name := .inr (.inl ⟨name, rfl⟩)
  qualified table name := .inr (.inr ⟨table, name, rfl⟩)
  argument he hcall ha := he.part (by simp [parts, hcall, ha])
  partition he hk := by
    refine ⟨he.part (by simp [parts, hk]), ?_⟩
    obtain ⟨r, hroot, he⟩ := he.serves rfl
    exact hwindows r _ _ _ _ hroot he _ hk
  order he hitem := he.part (by
    rw [parts, List.mem_append]
    exact .inr (List.mem_map.mpr ⟨_, hitem, rfl⟩))

/-- A list that has all parts of its members has all that is evaluated for them. -/
theorem Serves.mem {q e : Expr} (h : q.Serves e) {l : List Expr}
    (hparts : ∀ e ∈ l, ∀ p ∈ e.parts, p ∈ l) (he : e ∈ l) : q ∈ l := by
  induction h with
  | self => exact he
  | part hp _ ih => exact ih (hparts _ he _ hp)

/-- Labels differ if they do in a list that has all parts of its members. -/
theorem labelsDiffer_of_nodup {roots : Expr → Prop} (l : List Expr) (hroots : ∀ r, roots r → r ∈ l)
    (hparts : ∀ e ∈ l, ∀ p ∈ e.parts, p ∈ l)
    (hlabels : ((l.filter isRemembered).map label).Nodup) : LabelsDiffer roots := by
  intro r s e q hr hs he hq her hqr hlabel
  exact labelsApart_of_nodup hlabels (he.mem hparts (hroots r hr)) (hq.mem hparts (hroots s hs)) her
    hqr hlabel

end Expr

/-- What rows are selected and sorted by. -/
def Clauses.Selects (c : Clauses) (e : Expr) : Prop :=
  .expr e ∈ c.items ∨ ∃ item ∈ c.orderBy, e = item.expr

/-- Labels tell apart what is evaluated for each clause, and rows are partitioned for windows without a
look at results of windows. -/
structure Clauses.LabelsDiffer (c : Clauses) : Prop where
  condition : Expr.LabelsDiffer (· ∈ c.condition)
  groupBy : Expr.LabelsDiffer (· ∈ c.groupBy)
  having : Expr.LabelsDiffer (· ∈ c.having)
  selected : Expr.LabelsDiffer c.Selects
  partition : ∀ r f keys order extent, c.Selects r → (Expr.window f keys order extent).Serves r →
    ∀ k ∈ keys, k.WindowFree

mutual

/-- Labels tell apart what is evaluated for each clause of the query and of all queries in its source. -/
def Statement.LabelsDiffer : Statement → Prop
  | .select source clauses => source.LabelsDiffer ∧ clauses.LabelsDiffer

/-- Labels tell apart what is evaluated for each condition of a join, and for queries to be joined. -/
def Source.LabelsDiffer : Source → Prop
  | .nothing => True
  | .factor f => f.LabelsDiffer
  | .leftJoin left right on =>
    left.LabelsDiffer ∧ right.LabelsDiffer ∧ Expr.LabelsDiffer (· = on)

/-- Labels tell apart what is evaluated for the query that the factor is, if it is one. -/
def Factor.LabelsDiffer : Factor → Prop
  | .table .. => True
  | .derived query _ => query.LabelsDiffer

end

namespace Context

/-- Between the clauses of a query nothing is remembered, and the contexts are the same but for columns
that were noticed. -/
structure Between (c d : Context) : Prop where
  beside : c.Beside d
  forgotten : c.Forgotten

variable {c d : Context}

theorem registerField_update (c : Context) (table field : String) (memo : Array (Labelled Value))
    (saw : Bool) :
    registerField table { c with memo := memo, sawPlainColumn := saw } field =
      { registerField table c field with memo := memo, sawPlainColumn := saw } := by
  rw [registerField, registerField]
  dsimp only
  cases c.ambiguous.get? field with
  | some owners => rfl
  | none =>
    cases c.direct.get? field with
    | none => rfl
    | some owner =>
      dsimp only
      split <;> rfl

theorem registerFields_update (table : String) (fields : List String)
    (memo : Array (Labelled Value)) (saw : Bool) : ∀ c : Context,
    registerFields { c with memo := memo, sawPlainColumn := saw } table fields =
      { c.registerFields table fields with memo := memo, sawPlainColumn := saw } := by
  induction fields with
  | nil => exact fun _ => rfl
  | cons field fields ih =>
    intro c
    rw [registerFields, registerFields, List.foldl_cons, List.foldl_cons, registerField_update]
    exact ih _

theorem rebuildFields_update (c : Context) (memo : Array (Labelled Value)) (saw : Bool) :
    rebuildFields { c with memo := memo, sawPlainColumn := saw } =
      { c.rebuildFields with memo := memo, sawPlainColumn := saw } := by
  have hfold : ∀ (views : List (String × View)) (c : Context),
      views.foldl (fun c p => c.registerFields p.1 p.2.fields)
          { c with memo := memo, sawPlainColumn := saw } =
        { views.foldl (fun c p => c.registerFields p.1 p.2.fields) c with
          memo := memo, sawPlainColumn := saw } := by
    intro views
    induction views with
    | nil => exact fun _ => rfl
    | cons p views ih =>
      intro c
      rw [List.foldl_cons, List.foldl_cons]
      show views.foldl _ (registerFields _ p.1 p.2.fields) = _
      rw [registerFields_update]
      exact ih _
  exact hfold c.frame.views { c with direct := .empty, ambiguous := .empty }

theorem Beside.registerFields (h : c.Beside d) (table : String) (fields : List String) :
    (c.registerFields table fields).Beside (d.registerFields table fields) := by
  have hd : d.registerFields table fields =
      { c.registerFields table fields with memo := d.memo, sawPlainColumn := d.sawPlainColumn } := by
    rw [h.same]
    exact registerFields_update table fields _ _ c
  obtain ⟨direct, ambiguous, hc⟩ := c.registerFields_eq table fields
  rw [hd, hc]
  exact ⟨rfl, h.saw⟩

/-- Contexts whose rows are replaced alike. -/
theorem Beside.replaceFrame (h : c.Beside d) (f : Frame) :
    Between (c.replaceFrame f) (d.replaceFrame f) := by
  refine ⟨⟨?_, h.saw⟩, rfl⟩
  rw [h.same]
  rfl

/-- Contexts in which no column is left noticed. -/
theorem Between.unseen (h : c.Between d) :
    Between { c with sawPlainColumn := false } { d with sawPlainColumn := false } := by
  refine ⟨⟨?_, id⟩, h.forgotten⟩
  rw [h.beside.same]

theorem Beside.collapseTo (h : c.Beside d) (columns : List KeyColumn) (buckets : List Bucket)
    (groups : List Group) :
    Between { c.collapseTo columns buckets groups with sawPlainColumn := false }
      { d.collapseTo columns buckets groups with sawPlainColumn := false } := by
  obtain ⟨e, hc, hd, hmemo⟩ : ∃ e : Context, c.collapseTo columns buckets groups = e.rebuildFields ∧
      (∀ memo saw, { c with memo := memo, sawPlainColumn := saw }.collapseTo columns buckets groups =
        { e with sawPlainColumn := saw }.rebuildFields) ∧ e.Forgotten :=
    ⟨_, rfl, fun _ _ => rfl, rfl⟩
  obtain ⟨direct, ambiguous, he⟩ := e.rebuildFields_eq
  have hd' : d.collapseTo columns buckets groups =
      { e.rebuildFields with memo := e.memo, sawPlainColumn := d.sawPlainColumn } := by
    rw [h.same, hd]
    exact e.rebuildFields_update e.memo _
  rw [hc, hd', he]
  exact ⟨⟨rfl, id⟩, hmemo⟩

theorem Between.mirrors {engine : Engine} {A : Expr → Prop} {W : Prop} {b : Bool}
    {rows : Nat → Prop} (h : c.Between d) : Mirrors engine A W b rows c d :=
  .of_forgotten h.beside h.forgotten

end Context

namespace Step

open Context

variable {engine : Engine} {A : Expr → Prop} {e : Expr}

/-- After a loop between clauses the contexts are still beside one another. -/
theorem couples_loop {α : Type} {f g : Nat → Step α}
    (h : ∀ i start, Mirrored engine A True false i start (f i) (g i)) :
    Couples Between (rows f) (rows g) fun _ => Beside :=
  (Mirrored.rows_behind h).mono (fun _ _ hcd => hcd.mirrors) fun _ _ _ hcd => hcd.beside

theorem couples_filter (hA : Expr.Family A) (he : A e) :
    Couples Between (filter engine e) (filter engine.recomputing e) fun _ => Between := by
  rw [filter, filter]
  refine (couples_loop (mirrored_holds hA ⟨he, .inl trivial⟩)).bind fun truths => ?_
  refine .modify fun c d hcd => ?_
  rw [hcd.frame]
  exact (hcd.replaceFrame _).unseen

theorem couples_groupBy (hA : Expr.Family A) {keys : List Expr} (hkeys : ∀ k ∈ keys, A k) :
    Couples Between (groupBy engine keys) (groupBy engine.recomputing keys) fun _ => Between := by
  rw [groupBy, groupBy]
  have hvalues := couples_loop (@mirrored_values engine _ _ hA _
    (fun k hk => ⟨hkeys k hk, .inl trivial⟩) false)
  refine (couples_buckets hvalues).bind fun buckets => ?_
  refine Couples.bind (Q := fun _ => Beside) ?_ fun groups => .get_bind fun c d hcd => ?_
  · rw [groupsOf]
    refine .get_bind fun c d hcd => ?_
    rw [hcd.frame]
    exact .pure _ fun c' d' h => h.1 ▸ h.2 ▸ hcd
  · rw [keyColumn_congr hcd.resolve]
    refine (Couples.lift (Q := fun _ _ _ => True) (.refl _) fun _ _ _ _ _ => trivial).bind
      fun columns => ?_
    exact (Couples.set (Q := fun _ => Between) fun _ _ _ => hcd.collapseTo columns buckets groups).bind
      fun _ => .pure _ fun _ _ h => h

/-! ### Joins -/

/-- Actions for the items of a list, each of which looks at the row at its place. -/
theorem couples_mapM {α β : Type} {f g : β → Nat → Step α}
    (h : ∀ b i start, Mirrored engine A True false i start (f b i) (g b i)) (l : List β) :
    Couples Between (l.zipIdx.mapM fun (b, i) => f b i) (l.zipIdx.mapM fun (b, i) => g b i)
      fun _ => Beside := by
  have hloop := Couples.mapM_from (T := fun i => Mirrors engine A True false (i ≤ ·))
    (f := fun q : β × Nat => f q.1 q.2) (g := fun q => g q.1 q.2) l.zipIdx 0 fun n hn => by
      rw [List.getElem_zipIdx, Nat.zero_add]
      exact Mirrored.couples_behind (h _ n)
  exact hloop.mono (fun _ _ hcd => hcd.mirrors) fun _ _ _ hcd => hcd.beside

theorem couples_mergePairs (hA : Expr.Family A) {key : Expr} (hkey : A key) (right : View)
    (field : String) :
    Couples Between (mergePairs engine key right field)
      (mergePairs engine.recomputing key right field) fun _ => Beside := by
  rw [mergePairs, mergePairs]
  refine .get_bind fun c d hcd => ?_
  rw [hcd.beside.size]
  have hkeys := Couples.mapM_from (T := fun i => Mirrors engine A True false (i ≤ ·))
    (f := fun i => do return (← (key.evaluator engine).value engine i false, i))
    (g := fun i => do
      return (← (key.evaluator engine.recomputing).value engine.recomputing i false, i))
    (List.range c.size) 0 fun n hn => by
      rw [List.getElem_range, Nat.zero_add]
      refine Mirrored.couples_behind fun start => ?_
      exact (mirrored_evaluate hA ⟨hkey, .inl trivial⟩ false n start).bind fun x => .pure _
  have hstart : ∀ c' d', c' = c ∧ d' = d → Mirrors engine A True false (0 ≤ ·) c' d' :=
    fun c' d' h => h.1 ▸ h.2 ▸ hcd.mirrors
  exact (hkeys.mono hstart fun _ _ _ h => h).bind fun left => .pure _ fun _ _ hcd => hcd.beside

theorem couples_tryPairs (hA : Expr.Family A) {on : Expr} (hon : A on) (candidates : List RowPair)
    (table : String) (right : View) :
    Couples Beside (tryPairs engine candidates table right on)
      (tryPairs engine.recomputing candidates table right on) fun _ => Beside := by
  rw [tryPairs, tryPairs]
  refine .get_bind fun c d hcd => ?_
  rw [hcd.frame]
  refine (Couples.set (Q := fun _ => Between) fun _ _ _ =>
    (hcd.registerFields table right.fields).replaceFrame _).bind fun _ => ?_
  have htried := @couples_mapM engine A _ _
    (fun (p : RowPair) k => if p.2.isSome then
      do return (p, ← (on.evaluator engine).holds engine k) else return (p, false))
    (fun (p : RowPair) k => if p.2.isSome then
      do return (p, ← (on.evaluator engine.recomputing).holds engine.recomputing k)
      else return (p, false)) (fun p k start => ?_) candidates
  · refine htried.bind fun tried => ?_
    refine Couples.bind (Q := fun _ => Beside) (.modify fun c' d' hcd' => ⟨?_, hcd'.saw⟩)
      fun _ => .pure _ fun _ _ h => h
    rw [hcd'.same]
  · split
    · exact (mirrored_holds hA ⟨hon, .inl trivial⟩ k start).bind fun b => .pure _
    · exact .pure _

/-- Left joins come to the same with memory and without. -/
theorem couples_leftJoin (hA : Expr.Family A) {on : Expr} (hon : A on) (aliases : List String)
    (table : String) (right : View) :
    Couples Between (leftJoin engine aliases table right on)
      (leftJoin engine.recomputing aliases table right on) fun _ => Between := by
  rw [leftJoin, leftJoin]
  refine .get_bind fun c d hcd => ?_
  have hbeside := hcd.beside
  have hsame : ∀ c' d', c' = c ∧ d' = d → c'.Beside d' := fun c' d' h => h.1 ▸ h.2 ▸ hbeside
  have hkeys : d.equalityKeys? on aliases table right = c.equalityKeys? on aliases table right := by
    rw [hbeside.same]
    rfl
  -- whichever way the pairs were found, the last step is the same
  have hlast : ∀ pairs : List RowPair, Couples Beside (do
      modify fun c =>
        let frame := (c.frame.take (pairs.map Prod.fst)).push table (right.paired pairs)
        { (c.registerFields table right.fields).replaceFrame frame with sawPlainColumn := false }
      return aliases ++ [table]) (do
      modify fun c =>
        let frame := (c.frame.take (pairs.map Prod.fst)).push table (right.paired pairs)
        { (c.registerFields table right.fields).replaceFrame frame with sawPlainColumn := false }
      return aliases ++ [table]) fun _ => Between := by
    intro pairs
    refine Couples.bind (Q := fun _ => Between) (.modify fun c' d' hcd' => ?_) fun _ =>
      .pure _ fun _ _ h => h
    dsimp only
    rw [hcd'.frame]
    exact ((hcd'.registerFields table right.fields).replaceFrame _).unseen
  rw [hbeside.frame, hbeside.size, hkeys]
  by_cases hdup : (c.frame.view? table).isSome = true
  · simp only [hdup, if_true]
    exact .throw_bind _ _ _
  by_cases hempty : c.size = 0 ∨ right.size = 0
  · simp only [hdup, hempty, Bool.false_eq_true, if_false, if_true]
    exact (hlast _).mono hsame fun _ _ _ h => h
  · simp only [hdup, hempty, Bool.false_eq_true, if_false]
    cases hfound : c.equalityKeys? on aliases table right with
    | none =>
      exact ((couples_tryPairs hA hon _ table right).mono hsame fun _ _ _ h => h).bind hlast
    | some found =>
      -- the key that rows are merged by is an operand of the condition
      have hkey : A found.1 := by
        obtain ⟨other, -, -, hbody | hbody, -⟩ := equalityKeys?_eq_some hfound
        all_goals
          have hA' := hA.body hon
          rw [hbody] at hA'
          exact hA.operand hA' (by simp [Expr.operands])
      refine ((couples_mergePairs hA hkey right found.2).mono ?_ fun _ _ _ h => h).bind
        fun candidates => (couples_tryPairs hA hon candidates table right).bind hlast
      exact fun c' d' h => h.1 ▸ h.2 ▸ hcd

/-! ### Clauses -/

/-- Rows are alike and fit their views, and no column is left noticed. -/
structure Tidy (W : Prop) (d : Context) : Prop where
  aligned : d.Aligned
  uniform : d.Uniform W 0
  unseen : d.sawPlainColumn = false

/-- What comes before rows are selected leaves them alike. -/
theorem tidy_prepare (hengine : engine.remembers = false) (clauses : Clauses) :
    Ensures (fun d => d.Loaded ∧ d.Bare) (prepare engine clauses) fun _ => Tidy False := by
  by_cases hgroups : clauses.groupBy = []
  · have huniform : Ensures (fun d => d.Uniform True 0 ∧ d.sawPlainColumn = false)
        (prepare engine clauses) fun _ d => d.Uniform True 0 ∧ d.sawPlainColumn = false := by
      rw [prepare, hgroups]
      refine (Ensures.forM_option _ fun e _ => uniform_filter hengine (.inl trivial)).bind fun _ => ?_
      exact .forM_option _ fun e _ => uniform_filter hengine (.inl trivial)
    intro c a d hc he
    have hloaded := loaded_prepare hgroups hc.1 he
    have hd := huniform ⟨.inr (hc.2.loose True), hc.1.unseen⟩ he
    exact ⟨hloaded.aligned, hd.1.mono False.elim (Nat.le_refl 0), hd.2⟩
  · intro c a d hc he
    obtain ⟨hgrouped, hunseen, -⟩ := grouped_prepare hgroups hc.1 he
    exact ⟨hgrouped.aligned, hgrouped.uniform False, hunseen⟩

theorem couples_prepare {clauses : Clauses} (h : clauses.LabelsDiffer) :
    Couples Between (prepare engine clauses) (prepare engine.recomputing clauses)
      fun _ => Between := by
  rw [prepare, prepare]
  refine (Couples.forM_option _ fun e he =>
    couples_filter h.condition.family (.of_root he)).bind fun _ => ?_
  have hhaving : Couples Between (clauses.having.forM (filter engine))
      (clauses.having.forM (filter engine.recomputing)) fun _ => Between :=
    .forM_option _ fun e he => couples_filter h.having.family (.of_root he)
  split
  · exact (couples_groupBy h.groupBy.family fun k hk => .of_root hk).discard.bind fun _ => hhaving
  · exact hhaving

/-- Distinct rows are the same with memory and without. -/
theorem matches_distinctRows (hA : Expr.Kin A) (v : View) {order : List OrderItem}
    (horder : ∀ item ∈ order, A item.expr) (bounds : Option Limit) :
    Matches (distinctRows engine v order bounds) (distinctRows engine.recomputing v order bounds) := by
  have hkeys : ∀ k ∈ v.fields.map Expr.field, A k := fun k hk => by
    obtain ⟨name, -, rfl⟩ := List.mem_map.mp hk
    exact hA.field name
  have hstart : Couples (fun c d => c = {} ∧ d = {}) (addView distinctAlias v)
      (addView distinctAlias v) fun _ c d => c.Between d ∧ d.Loaded := by
    rintro _ _ ⟨rfl, rfl⟩
    have hloaded := loaded_addView (Step.addView_new distinctAlias v)
    rw [addView_new]
    exact .ok ⟨⟨.refl _, hloaded.forgotten⟩, hloaded⟩
  -- the rows are put into a context of their own, grouped by all fields and selected from there
  have hgroups := ((@couples_groupBy engine A hA.toFamily _ hkeys).ensures
    (grouped_groupBy (v.fields.map Expr.field))).discard
  have hselect := @couples_selectAll engine A hA ((v.fields.map Expr.field).map .expr) order
    (fun e he => ?_) horder bounds
  · rw [distinctRows, distinctRows]
    refine (hstart.bind fun _ => hgroups.bind fun _ => hselect.mono ?_ fun _ _ _ h => h).runIn
      ⟨rfl, rfl⟩
    exact fun c d hcd => ⟨hcd.1.mirrors, hcd.2.1.aligned, hcd.2.1.uniform False, hcd.2.2.1⟩
  · obtain ⟨k, hk, he⟩ := List.mem_map.mp he
    cases he
    exact hkeys _ hk

/-- What is selected is the same with memory and without. -/
theorem couples_select {clauses : Clauses} (h : clauses.LabelsDiffer) :
    Couples (fun c d => c.Between d ∧ Tidy False d)
      (select engine clauses.items clauses.quantifier clauses.orderBy clauses.limit)
      (select engine.recomputing clauses.items clauses.quantifier clauses.orderBy clauses.limit)
      fun _ _ _ => True := by
  have hA := h.selected.kin h.partition
  have hstart : ∀ c d, c.Between d ∧ Tidy False d →
      Parallel engine (Expr.Evaluated clauses.Selects) False c d := fun c d hcd =>
    ⟨hcd.1.mirrors, hcd.2.aligned, hcd.2.uniform, hcd.2.unseen⟩
  have hitems : ∀ e, .expr e ∈ clauses.items → Expr.Evaluated clauses.Selects e :=
    fun e he => .of_root (.inl he)
  have horder : ∀ item ∈ clauses.orderBy, Expr.Evaluated clauses.Selects item.expr :=
    fun item hitem => .of_root (.inr ⟨item, hitem, rfl⟩)
  rw [select.eq_def, select.eq_def]
  split
  · exact (couples_selectAll hA hitems horder _).mono hstart fun _ _ _ h => h
  · refine ((couples_selectAll hA hitems (fun _ hitem => by cases hitem) none).mono hstart
      fun _ _ _ h => h).bind fun v => ?_
    exact .lift (matches_distinctRows hA v horder _) fun _ _ _ _ h => h
  · exact .throw _

end Step

namespace Statement

open Step Context

variable {engine : Engine} {tables : Tables}

mutual

/-- Memory makes no difference to the result of a query whose labels differ, unless columns and
aggregates are found to be mixed when every value is computed anew. -/
theorem matches_execute : ∀ s : Statement, s.LabelsDiffer →
    Matches (execute engine tables s) (execute engine.recomputing tables s)
  | .select source clauses, h => by
    have hloaded : Ensures (· = {}) (loadSource engine.recomputing tables source)
        fun _ d => d.Loaded ∧ d.Bare := fun c a d hc he =>
      ⟨loaded_loadSource _ tables source hc he, bare_loadSource _ tables source hc he⟩
    have hload := ((couples_loadSource source h.1).ensures hloaded).discard
    have hprepare := (@couples_prepare engine clauses h.2).ensures
      (@tidy_prepare engine.recomputing rfl clauses)
    rw [execute, execute]
    simp only [runClauses_eq]
    exact (hload.bind fun _ => hprepare.bind fun _ => couples_select h.2).runIn ⟨⟨rfl, rfl⟩, rfl⟩

theorem couples_loadSource : ∀ source : Source, source.LabelsDiffer →
    Couples (fun c d => c = {} ∧ d = {}) (loadSource engine tables source)
      (loadSource engine.recomputing tables source) fun _ => Between
  | .nothing, _ => by
    rw [loadSource, loadSource]
    rintro _ _ ⟨rfl, rfl⟩
    exact .ok ⟨.refl _, rfl⟩
  | .factor f, h => by
    rw [loadSource, loadSource]
    refine (Couples.lift (Q := fun _ c d => c = {} ∧ d = {}) (matches_loadFactor f h)
      fun _ _ _ _ hcd => hcd).bind fun v => Couples.bind (Q := fun _ => Between) ?_
        fun _ => .pure _ fun _ _ hcd => hcd
    rintro _ _ ⟨rfl, rfl⟩
    rw [addView_new]
    exact .ok ⟨.refl _, (loaded_addView (addView_new f.name v)).forgotten⟩
  | .leftJoin left right on, h => by
    rw [loadSource, loadSource]
    refine (couples_loadSource left h.1).bind fun aliases => ?_
    refine (Couples.lift (Q := fun _ => Between) (matches_loadFactor right h.2.1)
      fun _ _ _ _ hcd => hcd).bind fun v => ?_
    exact couples_leftJoin h.2.2.family (.of_root rfl) aliases right.name v

theorem matches_loadFactor : ∀ f : Factor, f.LabelsDiffer →
    Matches (loadFactor engine tables f) (loadFactor engine.recomputing tables f)
  | .table name _, _ => by
    rw [loadFactor, loadFactor]
    exact .refl _
  | .derived query _, h => by
    rw [loadFactor, loadFactor]
    exact matches_execute query h

end

/-- Memory makes no difference to the result of a query whose labels differ, unless columns and
aggregates are found to be mixed when every value is computed anew. -/
theorem execute_recomputing (engine : Engine) (tables : Tables) {s : Statement} (h : s.LabelsDiffer) :
    execute engine tables s = execute engine.recomputing tables s ∨
      execute engine.recomputing tables s = .error .mixedAggregate :=
  matches_execute s h

/-- A table with a field that is named like an expression. -/
def shadowing : Tables :=
  .ofList [("t", ⟨["x", "not x"], #[.ofList [("x", .null), ("not x", .null)]]⟩)]

theorem execute_recomputing_shadowing :
    let isNull : Expr := .isNull (.field "x") false
    let s : Statement := .select (.factor (.table "t" none))
      { selecting [.expr (.aliased isNull "a"), .expr (.aliased (.unary .not isNull) "b")] with
        condition := some (.paren isNull)
        orderBy := [.mk isNull .ascending] }
    s.LabelsDiffer ∧ (execute .builtin shadowing s = execute Engine.builtin.recomputing shadowing s ∨
      execute Engine.builtin.recomputing shadowing s = .error .mixedAggregate) := by
  intro isNull s
  -- `selected` is closed under parts; that its labels differ is computed
  let selected : List Expr := [.aliased isNull "a", .aliased (.unary .not isNull) "b",
    .unary .not isNull, isNull, .field "x"]
  have hselects : ∀ e, s.clauses.Selects e → e ∈ selected := by
    rintro e (he | ⟨item, hitem, rfl⟩)
    · simp [s, selecting, Statement.clauses] at he
      rcases he with rfl | rfl <;> simp [selected]
    · simp [s, selecting, Statement.clauses] at hitem
      simp [hitem, selected, OrderItem.expr]
  have hparts : ∀ e ∈ selected, ∀ p ∈ e.parts, p ∈ selected := by
    simp [selected, isNull, Expr.parts, Expr.operands]
  have hlabels : s.LabelsDiffer := by
    refine ⟨trivial, ⟨?_, ?_, ?_, ?_, ?_⟩⟩
    · refine Expr.labelsDiffer_of_nodup [.paren isNull, isNull, .field "x"] (fun r hr => ?_) ?_ ?_
      · simp at hr
        simp [hr]
      · simp [isNull, Expr.parts, Expr.operands]
      · decide +kernel
    · exact Expr.labelsDiffer_of_nodup [] (fun r hr => hr) (by simp) (by simp)
    · exact Expr.labelsDiffer_of_nodup [] (fun r hr => by cases hr) (by simp) (by simp)
    · exact Expr.labelsDiffer_of_nodup selected hselects hparts (by decide +kernel)
    · intro r f keys order extent hr hw
      have hmem := hw.mem hparts (hselects r hr)
      simp [selected, isNull] at hmem
  exact ⟨hlabels, execute_recomputing .builtin shadowing hlabels⟩

/-- Selects whether the field `not x` is Null, and whether `x` is not Null. -/
def shadowed : Statement :=
  .select (.factor (.table "t" none)) (selecting
    [.expr (.aliased (.isNull (.field "not x") false) "a"),
      .expr (.aliased (.unary .not (.isNull (.field "x") false)) "b")])

/-- A value is taken for that of another expression with the same label. -/
theorem not_forall_execute_recomputing : ¬ ∀ (tables : Tables) (s : Statement),
    execute .builtin tables s = execute Engine.builtin.recomputing tables s := by
  intro h
  have hlabel : ((execute .builtin shadowing shadowed).toOption.map fun v =>
      (v.value 0 "b").equal (.boolean true)) = some true := by decide +kernel
  have hvalue : ((execute Engine.builtin.recomputing shadowing shadowed).toOption.map fun v =>
      (v.value 0 "b").equal (.boolean true)) = some false := by decide +kernel
  rw [h, hvalue] at hlabel
  cases hlabel

end Statement

end TableQuery
