/-
Windows are read where they were computed.

Between the computation of windows and a look at their results rows are sorted, limited, and turned into
one group by an aggregate. Rows that are in groups stay, and so do rows when no aggregate is called; an
aggregate leaves one row, which has the results of the first row. So a list of expressions has to read its
windows before it calls an aggregate, or to call it in the first row (`Expr.ReadsWindows`).

* `Step.safe_rows_values` — the values of a list of expressions in all rows;
* `Step.safe_arranged` — windows are computed and rows are sorted by them;
* `Step.safe_project`, `Step.safe_selectAll` — what is selected.
-/
import TableQuery.Proofs.FirstRow

namespace TableQuery

/-! ### Lists of expressions -/

namespace Expr

/-- Windows stand in front of all that calls an aggregate function. -/
inductive WindowsFirst (r : Registry) : List Expr → Prop
  | plain {es : List Expr} : (∀ e ∈ es, e.window? = none) → WindowsFirst r es
  | cons {e : Expr} {es : List Expr} : e.AggregateFree r → WindowsFirst r es → WindowsFirst r (e :: es)

/-- Nothing but windows is remembered under a known label, or under that of a window. -/
def LabelsFresh (known : String → Prop) (es : List Expr) : Prop :=
  ∀ e ∈ es, e.window? = none → e.Labels fun label =>
    ¬known label ∧ ∀ u ∈ es, ∀ w, u.window? ≠ some (w, label)

/-- The results of windows are there when the expressions are evaluated in rows without groups, of which
values are remembered under known labels. -/
structure ReadsWindows (r : Registry) (known : String → Prop) (es : List Expr) : Prop where
  keys : ∀ e ∈ es, e.window? = none ∨ e.Unaggregated r
  results : WindowsFirst r es ∨ LabelsFresh known es

theorem ReadsWindows.anti {r : Registry} {known known' : String → Prop} {es : List Expr}
    (h : ReadsWindows r known es) (hk : ∀ label, known' label → known label) :
    ReadsWindows r known' es where
  keys := h.keys
  results := h.results.imp_right fun hfresh e he hw q hq hr =>
    have hlabel := hfresh e he hw q hq hr
    ⟨fun hknown => hlabel.1 (hk _ hknown), hlabel.2⟩

theorem LabelsFresh.apart {known : String → Prop} {es : List Expr} (h : LabelsFresh known es) :
    Step.Apart (fun label => ¬known label ∧ ∀ u ∈ es, ∀ w, u.window? ≠ some (w, label)) es where
  plain := h
  window e he w _ hw hL := hL.2 e he w hw

end Expr

/-- Rows without groups, of which values are remembered under known labels. -/
structure Context.Fresh (known : String → Prop) (c : Context) : Prop where
  loose : c.frame.Loose
  recalls : c.Recalls known
  unseen : c.sawPlainColumn = false
  aligned : c.Aligned

theorem Context.Fresh.mono {known known' : String → Prop} {c : Context} (h : c.Fresh known)
    (hk : ∀ label, known label → known' label) : c.Fresh known' :=
  { h with recalls := ⟨fun i label hm => hk label (h.recalls.memo i label hm), h.recalls.keys⟩ }

theorem Context.Fresh.before {known L : String → Prop} {c : Context} (h : c.Fresh known)
    (hL : ∀ label, L label → ¬known label) : c.Before c.frame L 0 where
  frame := rfl
  unseen := h.unseen
  size_memo := h.aligned.memo
  unheld j _ label hlabel := by
    by_contra hheld
    exact hL label hlabel (h.recalls.memo j label hheld)

namespace Step

variable {engine : Engine} {known : String → Prop} {c : Context} {es : List Expr} {f : Frame}

/-! ### Rows -/

theorem safe_values_of_windowsFirst (hr : engine.functions.Regular)
    (h : Expr.WindowsFirst engine.functions es) (hes : ∀ e ∈ es, e.Selectable)
    (hready : ∀ e ∈ es, e.Ready f) {row : Nat} (hrow : row < f.size) (hc : c.frame = f) :
    Safe (Evaluator.values engine (Expr.evaluators engine es) row false) c
      fun _ d => d.frame = f ∨ f.Merged d.frame := by
  induction h generalizing c with
  | @plain es h =>
    refine (alwaysSafe_values hr (fun e he => (hes e he).windowFree (h e he)) row false).safe
      fun _ d hd => ?_
    exact (steady_merged engine (Nat.ne_zero_of_lt hrow)).values (fun _ _ => .inl trivial) row false
      (.inl hc) hd
  | @cons e es hfree _ ih =>
    subst hc
    rw [Evaluator.values, Expr.evaluators, List.mapM_cons]
    have he : Safe ((e.evaluator engine).value engine row false) c fun _ _ => True :=
      safe_value hr (hes e List.mem_cons_self)
        (fun w label hw => .inr (hready e List.mem_cons_self w label hw row hrow)) false
    refine (he.of_eq_ok fun x d hx _ => frame_of_value (.inr hfree) hx).bind fun x d hd => ?_
    refine (ih (fun e' he' => hes e' (List.mem_cons_of_mem e he'))
      (fun e' he' => hready e' (List.mem_cons_of_mem e he')) hd).bind fun xs d' hd' => .pure hd'

/-- The values of expressions in all rows, or in the first one if they make one group of the rows. -/
theorem safe_rows_values {α : Type} (hr : engine.functions.Regular) (g : List Value → α)
    (hes : ∀ e ∈ es, e.Selectable) (hready : ∀ e ∈ es, e.Ready c.frame)
    (h : c.frame.InGroups ∨
      (c.Fresh known ∧ (Expr.WindowsFirst engine.functions es ∨ Expr.LabelsFresh known es))) :
    Safe (rows fun i => do return g (← Evaluator.values engine (Expr.evaluators engine es) i false)) c
      fun _ d => d.frame = c.frame ∨ c.frame.Merged d.frame := by
  have hsize : ∀ d : Context, d.frame = c.frame → d.size = c.frame.size :=
    fun d hd => congrArg Frame.size hd
  rcases h with hgroups | ⟨hfresh, hfirst | hlabels⟩
  · refine (safe_rows_of_frame (fun i hi d hd => ?_) rfl).mono fun _ _ h => .inl h.1
    exact (safe_values hr hi hes hready (.inl hgroups) hd).bind fun _ _ hd' => .pure hd'
  · refine (Safe.rows (J := fun i d => d.frame = c.frame ∨ (0 < i ∧ c.frame.Merged d.frame))
      (fun i d hd hi => ?_) (.inl rfl)).mono fun _ _ h => h.1.imp_right (·.2)
    rcases hd with hd | ⟨hpos, hm⟩
    · refine (safe_values_of_windowsFirst hr hfirst hes hready (hsize d hd ▸ hi) hd).bind ?_
      exact fun _ _ hd' => .pure (hd'.imp_right fun hm => ⟨i.succ_pos, hm⟩)
    -- the group is the only row
    · exact absurd (Nat.lt_of_lt_of_eq hi hm.size) (Nat.not_lt_of_le hpos)
  · have hstep := (inStep_values hr hfresh.loose hes hready hlabels.apart).map g
    exact (hstep.safe_rows hfresh.loose (hfresh.before fun _ h => h.1)).mono
      fun _ _ h => h.imp (·.1) (·.1)

end Step

/-! ### Sorting -/

/-- Rows are moved or left out, or they become one group. The results of windows stay, and there may be
more of them. -/
structure Frame.Leaves (f g : Frame) : Prop where
  results : ∀ label, f.HasResults label → g.HasResults label
  inGroups : f.InGroups → g.InGroups
  loose : f.Loose → g.InGroups ∨ g.Loose

namespace Frame.Leaves

variable {f g h : Frame} {places : List Nat}

theorem refl (f : Frame) : f.Leaves f := ⟨fun _ => id, id, .inr⟩

theorem trans (s : f.Leaves g) (t : g.Leaves h) : f.Leaves h where
  results label hf := t.results label (s.results label hf)
  inGroups hf := t.inGroups (s.inGroups hf)
  loose hf := (s.loose hf).elim (fun hg => .inl (t.inGroups hg)) t.loose

theorem take (hp : ∀ p ∈ places, p < f.size) : f.Leaves (f.take places) where
  results _ hf := hf.take hp
  inGroups hf := hf.take hp
  loose hf := .inr (hf.take places)

theorem merged (hm : f.Merged g) : f.Leaves g where
  results _ hf := hm.hasResults hf
  inGroups _ := hm.inGroups
  loose _ := .inl hm.inGroups

theorem gains (s : f.Gains g) : f.Leaves g where
  results _ hf := hf.gains s
  inGroups hf := hf.noted s.noted
  loose hf := .inr (hf.noted s.noted)

theorem ready (s : f.Leaves g) {e : Expr} (he : e.Ready f) : e.Ready g :=
  fun w label hw => s.results label (he w label hw)

end Frame.Leaves

namespace Step

variable {engine : Engine} {known : String → Prop} {c : Context} {items : List OrderItem}

/-- Rows that are sorted keep the results of windows. -/
theorem leaves_sortRows (hr : engine.functions.Regular) (hes : ∀ i ∈ items, i.expr.Selectable)
    (hready : ∀ i ∈ items, i.expr.Ready c.frame)
    (h : c.frame.InGroups ∨ (c.Fresh known ∧
      (Expr.WindowsFirst engine.functions (items.map OrderItem.expr) ∨
        Expr.LabelsFresh known (items.map OrderItem.expr)))) :
    Safe (sortRows engine items) c fun _ d => c.frame.Leaves d.frame := by
  rw [sortRows]
  have hrows := safe_rows_values hr id (List.forall_mem_map.mpr hes) (List.forall_mem_map.mpr hready) h
  have hsame : (fun i => do return id (← Evaluator.values engine
      (Expr.evaluators engine (items.map OrderItem.expr)) i false)) = fun i =>
        Evaluator.values engine (Expr.evaluators engine (items.map OrderItem.expr)) i false :=
    funext fun i => bind_pure _
  rw [hsame] at hrows
  refine hrows.bind fun keys d hd => .get_bind ?_
  refine Safe.bind (Q := fun _ e => c.frame.Leaves e.frame) (.modify ?_) fun _ _ he => .pure he
  have hleaves : c.frame.Leaves d.frame := by
    rcases hd with hd | hm
    · exact hd ▸ .refl _
    · exact .merged hm
  refine hleaves.trans (.take fun p hp => ?_)
  have hlt := lt_length_of_mem_sortKeys hp
  rw [List.length_take] at hlt
  exact Nat.lt_of_lt_of_le hlt (Nat.min_le_left _ _)

end Step

/-! ### What rows are put in order by -/

/-- A value is remembered under the label when windows are computed. -/
def KeyLabel (exprs : List Expr) (order : List OrderItem) (label : String) : Prop :=
  ∃ w : Expr, (w ∈ exprs ∨ w.SortedBy exprs order) ∧
    ∃ p ∈ w.partition, ∃ q : Expr, q.Within p ∧ q.isRemembered = true ∧ q.label = label

/-- Windows are there when rows without groups are sorted, whichever names are fields, and when the
expressions are selected from them. -/
structure ReadsInOrder (r : Registry) (exprs : List Expr) (order : List OrderItem) : Prop where
  sorted : ∀ c : Context, Expr.ReadsWindows r (KeyLabel exprs order)
    ((order.map (c.orderItem exprs)).map OrderItem.expr)
  selected : Expr.ReadsWindows r (OrderLabel exprs order) exprs

/-- What is selected under an alias is a window, or free of windows. -/
theorem Expr.Selectable.windowed_of_aliased {s e : Expr} {name : String} (h : s.Selectable)
    (hs : s.body = .aliased e name) : e.Windowed WindowFree := by
  cases h with
  | expr h =>
    cases h with
    | plain h =>
      have hbody : (Expr.aliased e name).WindowFree := hs ▸ h.body
      exact .plain (hbody.operand (by simp [operands]))
    | window => cases hs
  | aliased name h =>
    cases hs
    exact h

theorem Context.windowed_orderItem {exprs : List Expr} (hexprs : ∀ e ∈ exprs, e.Selectable)
    {item : OrderItem} (hitem : item.expr.Windowed Expr.WindowFree) (c : Context) :
    (c.orderItem exprs item).expr.Windowed Expr.WindowFree := by
  obtain ⟨written, hwritten, he | ⟨name, -, s, hs, hbody⟩⟩ :=
    c.sortedBy_orderItem exprs (List.mem_singleton_self item)
  · rw [he, List.mem_singleton.mp hwritten]
    exact hitem
  · exact (hexprs s hs).windowed_of_aliased hbody

namespace Step

variable {engine : Engine} {known : String → Prop} {c : Context} {es exprs : List Expr}
  {order : List OrderItem}

/-- The window that a selected expression is, if it is one, is computed for every row. -/
theorem safe_computeWindow_of_selectable (hr : engine.functions.Regular) {e : Expr}
    (he : e.Selectable) (c : Context) (hc : c.frame.Agrees)
    (hstays : c.frame.InGroups ∨ e.window? = none ∨ e.Unaggregated engine.functions) :
    Safe (computeWindow engine e) c fun _ d => Computed [e] c d := by
  cases hw : e.window? with
  | none =>
    rw [computeWindow_of_window? hw]
    refine .pure ⟨.refl _, hc, List.forall_mem_singleton.mpr fun w label h => ?_⟩
    rw [hw] at h
    cases h
  | some p =>
    have hstays : c.frame.InGroups ∨ e.Unaggregated engine.functions :=
      hstays.imp_right fun h => h.resolve_left fun hnone => by rw [hw] at hnone; cases hnone
    cases he with
    | expr he => exact safe_computeWindow hr he c hc hstays
    | @aliased e name he =>
      rw [computeWindow]
      have hinner : c.frame.InGroups ∨ e.Unaggregated engine.functions := by
        refine hstays.imp_right fun h => ?_
        cases h with
        | plain hfree _ =>
          rw [hfree.window?] at hw
          cases hw
        | aliased h => exact h
      refine (safe_computeWindow hr he c hc hinner).mono fun _ d h => ⟨h.gains, h.agrees, ?_⟩
      exact List.forall_mem_singleton.mpr (h.ready e List.mem_cons_self)

/-- The windows among expressions are computed for every row, and rows stay without groups. -/
theorem safe_windows (hr : engine.functions.Regular) (hes : ∀ e ∈ es, e.Selectable)
    (hc : c.frame.Agrees) (h : c.frame.InGroups ∨ (c.Fresh known ∧
      (∀ e ∈ es, e.window? = none ∨ e.Unaggregated engine.functions) ∧
        ∀ e ∈ es, ∀ p ∈ e.partition, p.Labels known)) :
    Safe (es.forM (computeWindow engine)) c fun _ d => Computed es c d ∧
      (d.frame.InGroups ∨ d.Fresh known) := by
  have hcomputed : Safe (es.forM (computeWindow engine)) c fun _ d => Computed es c d :=
    safe_forM_computeWindow (fun e => e.window? = none ∨ e.Unaggregated engine.functions)
      (fun e he c hc hstays => safe_computeWindow_of_selectable hr (hes e he) c hc hstays) hc
      (h.imp_right fun h => h.2.1)
  refine hcomputed.of_eq_ok fun _ d hs hd => ⟨hd, ?_⟩
  rcases h with hgroups | ⟨hfresh, -, hlabels⟩
  · exact .inl (hgroups.noted hd.gains.noted)
  · refine .inr ⟨hfresh.loose.noted hd.gains.noted, ?_, ?_, ?_⟩
    · exact Ensures.forM es (fun e he => (lasting_recalls engine known).computeWindow e
        (hlabels e he)) hfresh.recalls hs
    · exact Ensures.forM es (fun e _ => (lasting_unseen engine).computeWindow e
        fun _ _ => trivial) hfresh.unseen hs
    · exact Ensures.forM es (fun e _ => (lasting_aligned engine).computeWindow e
        fun _ _ => trivial) hfresh.aligned hs

/-- Rows are sorted, with the windows that they are sorted by. -/
theorem safe_arrange (hr : engine.functions.Regular) (hexprs : ∀ e ∈ exprs, e.Selectable)
    (horder : ∀ i ∈ order, i.expr.Windowed Expr.WindowFree) (hc : c.frame.Agrees)
    (h : c.frame.InGroups ∨ (c.Fresh (KeyLabel exprs order) ∧
      ReadsInOrder engine.functions exprs order)) :
    Safe (arrange engine exprs order) c fun _ d => c.frame.Leaves d.frame := by
  rw [arrange]
  split
  · refine .get_bind ?_
    generalize hitems : order.map (c.orderItem exprs) = items
    have hwindowed : ∀ i ∈ items, i.expr.Selectable := by
      intro i hi
      obtain ⟨item, hitem, rfl⟩ := List.mem_map.mp (hitems ▸ hi)
      exact .expr (c.windowed_orderItem hexprs (horder item hitem))
    have hlabels : ∀ e ∈ items.map OrderItem.expr, ∀ p ∈ e.partition, p.Labels (KeyLabel exprs order) := by
      intro e he p hp q hq hremembered
      obtain ⟨i, hi, rfl⟩ := List.mem_map.mp he
      obtain ⟨item, hitem, rfl⟩ := List.mem_map.mp (hitems ▸ hi)
      exact ⟨_, .inr (c.sortedBy_orderItem exprs hitem), p, hp, q, hq, hremembered, rfl⟩
    have hreads := h.imp_right fun h => And.intro h.1 (hitems ▸ h.2.sorted c)
    rw [orderBy, computeOrderWindows_eq_forM]
    have hsort := safe_windows hr (List.forall_mem_map.mpr hwindowed) hc
      (hreads.imp_right fun h => ⟨h.1, h.2.keys, hlabels⟩)
    refine (hsort.bind fun _ d h => ?_).discard
    obtain ⟨hd, hrows⟩ := h
    have hsorted : d.frame.InGroups ∨ (d.Fresh (KeyLabel exprs order) ∧
        (Expr.WindowsFirst engine.functions (items.map OrderItem.expr) ∨
          Expr.LabelsFresh (KeyLabel exprs order) (items.map OrderItem.expr))) := by
      rcases hreads with hgroups | ⟨-, hreads⟩
      · exact .inl (hgroups.noted hd.gains.noted)
      · exact hrows.imp_right fun hfresh => ⟨hfresh, hreads.results⟩
    exact (leaves_sortRows hr hwindowed (fun i hi => hd.ready _ (List.mem_map_of_mem hi)) hsorted).mono
      fun _ _ hleaves => (Frame.Leaves.gains hd.gains).trans hleaves
  · exact .pure (.refl _)

/-- Windows are computed, and rows are sorted: what is selected can be read in the rows that are left. -/
theorem safe_arranged (hr : engine.functions.Regular) (hexprs : ∀ e ∈ exprs, e.Selectable)
    (horder : ∀ i ∈ order, i.expr.Windowed Expr.WindowFree) (hc : c.frame.Agrees)
    (h : c.frame.InGroups ∨ (c.Fresh (fun _ => False) ∧ ReadsInOrder engine.functions exprs order)) :
    Safe (arranged engine exprs order) c fun _ d => (∀ e ∈ exprs, e.Ready d.frame) ∧
      (d.frame.InGroups ∨ (d.Fresh (OrderLabel exprs order) ∧
        Expr.ReadsWindows engine.functions (OrderLabel exprs order) exprs)) := by
  have hleaves : Safe (arranged engine exprs order) c fun _ d =>
      (∀ e ∈ exprs, e.Ready d.frame) ∧ c.frame.Leaves d.frame := by
    have hlabels : ∀ e ∈ exprs, ∀ p ∈ e.partition, p.Labels (KeyLabel exprs order) :=
      fun w hw p hp q hq hremembered => ⟨w, .inl hw, p, hp, q, hq, hremembered, rfl⟩
    have hwindows := safe_windows hr hexprs hc <| h.imp_right fun h =>
      ⟨h.1.mono fun _ => False.elim, h.2.selected.keys, hlabels⟩
    rw [arranged]
    refine hwindows.bind fun _ d hwindowed => ?_
    obtain ⟨hd, hrows⟩ := hwindowed
    have hgains := Frame.Leaves.gains hd.gains
    refine (safe_arrange hr hexprs horder hd.agrees ?_).mono fun _ _ hleaves =>
      ⟨fun e he => hleaves.ready (hd.ready e he), hgains.trans hleaves⟩
    rcases h with hgroups | ⟨-, hreads⟩
    · exact .inl (hgains.inGroups hgroups)
    · exact hrows.imp_right fun hfresh => ⟨hfresh, hreads⟩
  refine hleaves.of_eq_ok fun _ d hs hd => ⟨hd.1, ?_⟩
  have hleaves := hd.2
  rcases h with hgroups | ⟨hfresh, hreads⟩
  · exact .inl (hleaves.inGroups hgroups)
  · refine (hleaves.loose hfresh.loose).imp_right fun hd => ⟨⟨hd, ?_, ?_, ?_⟩, hreads.selected⟩
    · have hrecalls : c.Recalls (OrderLabel exprs order) := (hfresh.mono fun _ => False.elim).recalls
      exact recalls_arranged (fun e he q hq hr => ⟨e, he, q, hq, hr, rfl⟩) hrecalls hs
    · exact (lasting_unseen engine).arranged (fun _ _ => admitted_all) (fun _ _ => admitted_all)
        hfresh.unseen hs
    · exact (lasting_aligned engine).arranged (fun _ _ => admitted_all) (fun _ _ => admitted_all)
        hfresh.aligned hs

/-! ### What is selected -/

/-- The values of expressions in rows in which their windows can be read. In place of no rows there is a
row where windows are Null. -/
theorem safe_project (hr : engine.functions.Regular) (hexprs : ∀ e ∈ exprs, e.Selectable)
    (hready : ∀ e ∈ exprs, e.Ready c.frame) (h : c.frame.InGroups ∨
      (c.Fresh known ∧ Expr.ReadsWindows engine.functions known exprs)) (names : List String) :
    Safe (project engine exprs names) c fun _ _ => True := by
  have hlast : ∀ found : Array Row, AlwaysSafe (do
      let c ← get
      reset
      return View.mk names (if c.sourceEmpty && !c.aggregated then #[] else found)) :=
    fun found => .get_bind fun c => .bind (.set _) fun _ => .pure _
  rw [project]
  refine .get_bind ?_
  by_cases hleft : c.size = 0 ∧ c.grouped ∧ c.emptyGroup.isNone
  · rw [if_pos hleft]
    exact (AlwaysSafe.bind (.set _) fun _ => .pure _) c
  rw [if_neg hleft]
  by_cases hsize : c.size = 0
  · simp only [hsize, if_true]
    have hstandIn : Safe (rows (selectedRow engine exprs names)) (standIn c) fun _ _ => True := by
      refine (Safe.rows (J := fun _ d => d.marks = (standIn c).marks) (fun i d hd _ => ?_) rfl).mono
        fun _ _ _ => trivial
      refine (safe_values_of_steady hr (steady_marks engine (standIn c).marks) hexprs
        (fun e he _ _ _ _ _ => .inl (congrArg (·.2.1) he)) hd).bind fun _ _ hd' => .pure hd'
    refine Safe.bind (Q := fun _ d => d = standIn c) (.set rfl) fun _ d hd => ?_
    subst hd
    exact hstandIn.bind fun found d _ => hlast found d
  · simp only [hsize, if_false]
    have hrows := safe_rows_values hr (fun values => Labelled.ofList (names.zip values)) hexprs hready
      (h.imp_right fun h => ⟨h.1, h.2.results⟩)
    exact hrows.bind fun found d _ => hlast found d

/-- Items stand for expressions unless there is no table of a name. -/
theorem isInternal_itemExprs {items : List SelectItem} {e : ExecutionError}
    (h : (items.mapM c.itemExprs).map List.flatten = .error e) : e.isInternal = false := by
  cases hl : items.mapM c.itemExprs with
  | ok l =>
    rw [hl] at h
    cases h
  | error e' =>
    rw [hl] at h
    cases h
    obtain ⟨item, -, hitem⟩ := exists_of_mapM_eq_error hl
    cases item with
    | expr | wildcard => cases hitem
    | tableWildcard table =>
      rw [Context.itemExprs] at hitem
      split at hitem
      · cases hitem
      · cases hitem
        rfl

theorem isInternal_columnNames {e : ExecutionError} (h : columnNames exprs = .error e) :
    e.isInternal = false := by
  rw [columnNames] at h
  split at h
  · cases h
    rfl
  · cases h

/-- What is selected in order, ready to be read. -/
theorem safe_ordered (hr : engine.functions.Regular) {items : List SelectItem}
    (hitems : ∀ i ∈ items, i.Of Expr.WindowFree)
    (horder : ∀ i ∈ order, i.expr.Windowed Expr.WindowFree) (hc : c.frame.Agrees)
    (h : c.frame.InGroups ∨ (c.Fresh (fun _ => False) ∧ ∀ l, items.mapM c.itemExprs = .ok l →
      ReadsInOrder engine.functions l.flatten order)) :
    Safe (ordered engine items order) c fun selected d => (∀ e ∈ selected.1, e.Selectable) ∧
      (∀ e ∈ selected.1, e.Ready d.frame) ∧ (d.frame.InGroups ∨
        (d.Fresh (OrderLabel selected.1 order) ∧
          Expr.ReadsWindows engine.functions (OrderLabel selected.1 order) selected.1)) := by
  rw [ordered]
  refine .get_bind ?_
  refine Safe.bind (Q := fun exprs d => d = c ∧ ∃ l, items.mapM c.itemExprs = .ok l ∧ exprs = l.flatten)
    (.lift (fun e he => isInternal_itemExprs he) fun exprs hexprs =>
      ⟨rfl, exists_of_map_eq_ok hexprs⟩) ?_
  rintro exprs d ⟨rfl, l, hl, rfl⟩
  refine Safe.bind (Q := fun _ c => c = d) (.lift (fun e he => isInternal_columnNames he) fun _ _ => rfl) ?_
  rintro names c rfl
  have hexprs : ∀ e ∈ l.flatten, e.Selectable :=
    forall_itemExprs (fun name => .expr (.plain (.field name)))
      (fun table name => .expr (.plain (.qualified table name))) (fun e he => hitems _ he) hl
  have hreads := h.imp_right fun h => And.intro h.1 (h.2 l hl)
  exact (safe_arranged hr hexprs horder hc hreads).bind fun _ d hd => .pure ⟨hexprs, hd⟩

/-- A limit leaves rows in which windows can be read. -/
theorem safe_bounds (hready : ∀ e ∈ exprs, e.Ready c.frame)
    (h : c.frame.InGroups ∨ (c.Fresh known ∧ Expr.ReadsWindows engine.functions known exprs))
    (bounds : Option Limit) : Safe (bounds.forM limit) c fun _ d => (∀ e ∈ exprs, e.Ready d.frame) ∧
      (d.frame.InGroups ∨ (d.Fresh known ∧ Expr.ReadsWindows engine.functions known exprs)) := by
  cases bounds with
  | none => exact .pure ⟨hready, h⟩
  | some bounds =>
    have hp : ∀ p ∈ bounds.places c.size, p < c.frame.size := fun _ hp => lt_of_mem_places hp
    refine .modify ⟨fun e he => (hready e he).take hp, h.imp (·.take hp) fun h => ⟨?_, h.2⟩⟩
    exact ⟨h.1.loose.take _, h.1.recalls.reorder _, h.1.unseen, h.1.aligned.reorder (.inl hp)⟩

theorem safe_selectAll (hr : engine.functions.Regular) {items : List SelectItem}
    (hitems : ∀ i ∈ items, i.Of Expr.WindowFree)
    (horder : ∀ i ∈ order, i.expr.Windowed Expr.WindowFree) (hc : c.frame.Agrees)
    (h : c.frame.InGroups ∨ (c.Fresh (fun _ => False) ∧ ∀ l, items.mapM c.itemExprs = .ok l →
      ReadsInOrder engine.functions l.flatten order)) (bounds : Option Limit) :
    Safe (selectAll engine items order bounds) c fun _ _ => True := by
  rw [selectAll_eq]
  refine (safe_ordered hr hitems horder hc h).bind fun selected d ⟨hselected, hready, hrows⟩ => ?_
  exact (safe_bounds hready hrows bounds).bind fun _ d' ⟨hready', hrows'⟩ =>
    safe_project hr hselected hready' hrows' selected.2

end Step

end TableQuery
