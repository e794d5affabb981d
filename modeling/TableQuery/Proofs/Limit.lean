/-
Limits.

A query limits its rows before it evaluates what is selected. A limit then keeps rows of the result as
they are unless what is selected looks at all rows, or no row is left and a row of Null stands in.

* `Step.project_reorder` — rows are selected alone, so the rows kept are those of the whole result;
* `Context.Aligned.reorder_range` — a limit that keeps all rows does nothing;
* `Step.project_without_groups`, `Step.project_without_rows` — what there is without rows;
* `Step.lasting_blank` — what is left of a context without its rows;
* `Statement.execute_limit` — when a limit keeps rows of the result.
-/
import TableQuery.Proofs.Selection

namespace TableQuery

/-- A count of rows of a view from a given one on. -/
def View.slice (v : View) (first count : Nat) : View :=
  ⟨v.fields, v.rows.extract first (first + count)⟩

/-- The rows of a view that a limit keeps, if there is one. -/
def View.limited (v : View) (bounds : Option Limit) : View :=
  bounds.elim v fun l => v.slice l.offset (l.count.getD v.size)

/-- A limit without a count keeps as many rows as there are. -/
theorem Limit.places_getD (l : Limit) (n : Nat) :
    (Limit.mk l.offset (some (l.count.getD n))).places n = l.places n := by
  obtain ⟨offset, _ | count⟩ := l
  · simp [places]
  · rfl

theorem Limit.places_eq (first count n : Nat) :
    (Limit.mk first (some count)).places n = ((List.range n).drop first).take count := by
  refine List.ext_getElem ?_ fun k hk _ => ?_
  · simp [places]
    omega
  · simp [places] at hk ⊢
    omega

namespace View

theorem slice_of_size_zero {v : View} (h : v.size = 0) (first count : Nat) :
    v.slice first count = v := by
  obtain ⟨fields, rows⟩ := v
  simp only [slice, View.mk.injEq, true_and, Array.extract_eq_self_iff]
  exact .inl h

theorem slice_of_size_le {v : View} {count : Nat} (h : v.size ≤ count) :
    v.slice 0 count = v := by
  obtain ⟨fields, rows⟩ := v
  simp only [slice, View.mk.injEq, true_and, Array.extract_eq_self_iff, Nat.zero_add]
  exact .inr h

theorem value_slice (v : View) {first count i : Nat} (h : i < count) (name : String) :
    (v.slice first count).value i name = v.value (first + i) name := by
  have hrow : (v.slice first count).rows[i]? = v.rows[first + i]? := by
    rw [slice, Array.getElem?_extract]
    split
    · rfl
    · exact (Array.getElem?_eq_none (by omega)).symm
  rw [value, value, hrow]

theorem eq_empty {v : View} (h : v.size = 0) : v = View.empty v.fields := by
  obtain ⟨fields, rows⟩ := v
  obtain rfl : rows = #[] := Array.eq_empty_of_size_eq_zero h
  rfl

theorem slice_of_none {v : View} {first count : Nat} (h : ¬(first < v.size ∧ 0 < count)) :
    v.slice first count = View.empty v.fields := by
  refine eq_empty ?_
  rw [size] at h ⊢
  simp [slice]
  omega

end View

namespace Step

variable {engine : Engine} {c : Context} {exprs : List Expr} {names : List String} {v : View}
  {first count : Nat}

/-! ### Limits that keep some rows -/

/-- What is selected in the rows that are kept is what was selected in them before. -/
theorem project_reorder (hc : c.Aligned) (hsize : c.size ≠ 0) (hempty : c.sourceEmpty = false)
    (hrows : ∀ i < c.size, c.InGroup i ∨ ∀ e ∈ exprs, e.AggregateFree engine.functions)
    (hv : (project engine exprs names).runIn c = .ok v) (hfirst : first < v.size)
    (hcount : 0 < count) :
    (project engine exprs names).runIn (c.reorder ((Limit.mk first (some count)).places c.size)) =
      .ok (v.slice first count) := by
  obtain ⟨row, hrow, rfl⟩ := exists_of_project_eq_ok hsize hempty hrows hv
  have hfirst' : first < c.size := by simpa [View.size] using hfirst
  have hplaces := Limit.places_eq first count c.size
  generalize (Limit.mk first (some count)).places c.size = places at hplaces
  have hlt : ∀ p ∈ places, p < c.size := fun p hp =>
    List.mem_range.mp (List.mem_of_mem_drop (List.mem_of_mem_take (hplaces ▸ hp)))
  have hlength : places.length ≠ 0 := by
    rw [hplaces]
    simp
    omega
  -- a row that is kept holds what it held, so the same is selected in it
  have hkept : ∀ k < places.length, (selectedRow engine exprs names k).runIn (c.reorder places) =
      .ok (row (places.getD k 0)) := by
    intro k hk
    have hsame := Context.SameRow.reorder hc hlt (List.getElem?_eq_getElem hk)
    have hi := hlt _ (List.getElem_mem hk)
    have hin := (hrows _ hi).imp_left hsame.symm.inGroup
    rw [(local_selectedRow engine exprs names).runIn_eq hin hsame, hrow _ hi,
      List.getD_eq_getElem?_getD, List.getElem?_eq_getElem hk, Option.getD_some]
  have hrows' : ∀ i < (c.reorder places).size, (c.reorder places).InGroup i ∨
      ∀ e ∈ exprs, e.AggregateFree engine.functions := by
    intro k hk
    rw [Context.size_reorder] at hk
    have hsame := Context.SameRow.reorder hc hlt (List.getElem?_eq_getElem hk)
    exact (hrows _ (hlt _ (List.getElem_mem hk))).imp_left hsame.symm.inGroup
  have hsize' : (c.reorder places).size ≠ 0 := by rwa [Context.size_reorder]
  have hsizes := c.size_reorder places
  rw [project_of_rows hsize' hempty hrows' fun k hk => hkept k (hsizes ▸ hk), hsizes]
  have hmap : (List.range places.length).map (fun k => row (places.getD k 0)) =
      places.map row := by
    refine List.ext_getElem (by simp) fun k hk hk' => ?_
    simp at hk
    simp [hk]
  rw [hmap, hplaces]
  simp [View.slice, List.map_take, List.map_drop]

/-- The rows of a result are as many as there are in the context, if these are looked at alone. -/
theorem size_project (hsize : c.size ≠ 0) (hempty : c.sourceEmpty = false)
    (hrows : ∀ i < c.size, c.InGroup i ∨ ∀ e ∈ exprs, e.AggregateFree engine.functions)
    (hv : (project engine exprs names).runIn c = .ok v) : v.size = c.size := by
  obtain ⟨row, -, rfl⟩ := exists_of_project_eq_ok hsize hempty hrows hv
  simp [View.size]

/-! ### Limits without rows -/

theorem fields_project (exprs : List Expr) (names : List String) :
    Ensures (fun _ => True) (project engine exprs names) fun v _ => v.fields = names := by
  have hrows : Ensures (fun _ => True) (do
      let found ← rows fun i => do
        let values ← Evaluator.values engine (Expr.evaluators engine exprs) i false
        return Labelled.ofList (names.zip values)
      let c ← get
      reset
      return (⟨names, if c.sourceEmpty && !c.aggregated then #[] else found⟩ : View))
      fun v _ => v.fields = names :=
    (Ensures.trivial _).bind fun found => (Ensures.trivial _).bind fun c =>
      (Ensures.trivial _).bind fun _ => .pure _ fun _ _ => rfl
  rw [project]
  refine .get_bind fun c _ => .ite (fun _ => ?_) fun _ => .ite (fun _ => ?_) fun _ => ?_
  · exact (Ensures.trivial _).bind fun _ => .pure _ fun _ _ => rfl
  · exact (Ensures.trivial _).bind fun _ => hrows
  · exact hrows.mono (fun _ _ => trivial) fun _ _ h => h

/-- A loop over some rows gives some results. -/
theorem rows_pos {α : Type} {action : Nat → Step α} {as : Array α} {d : Context}
    (hsize : c.size ≠ 0) (h : rows action c = .ok as d) : as.size ≠ 0 := by
  have hmore : ∀ n (done : Array α), Ensures (fun _ => True) (rowsAfter action done n)
      fun as _ => done.size ≤ as.size := by
    intro n
    induction n with
    | zero => exact fun done => .pure _ fun _ _ => Nat.le_refl _
    | succ n ih =>
      intro done
      rw [rowsAfter]
      refine .get_bind fun c _ => .ite (fun _ => ?_) fun _ => .pure _ fun _ _ => Nat.le_refl _
      refine (Ensures.trivial _).bind fun a => (ih (done.push a)).mono (fun _ h => h) ?_
      intro as _ hsize
      rw [Array.size_push] at hsize
      omega
  obtain ⟨n, hn⟩ := Nat.exists_eq_succ_of_ne_zero hsize
  rw [rows, get_bind, hn, rowsAfter, get_bind, hn, if_pos (by simp)] at h
  obtain ⟨a, c', -, h⟩ := exists_of_bind_eq_ok h
  have hle := hmore n _ trivial h
  rw [Array.size_push] at hle
  omega

/-- Where there are rows there is a result. -/
theorem project_pos {d : Context} (hsize : c.size ≠ 0) (hempty : c.sourceEmpty = false)
    (hv : project engine exprs names c = .ok v d) : v.size ≠ 0 := by
  rw [project, get_bind, if_neg fun h => hsize h.1] at hv
  simp only [hsize, if_false] at hv
  obtain ⟨found, e, hrows, hlast⟩ := exists_of_bind_eq_ok hv
  rw [get_bind] at hlast
  have hmarks : e.marks = c.marks := Ensures.rows (n := c.size) (fun i =>
    ((steady_marks engine _).values (fun _ _ => .inl trivial) i false).bind fun _ =>
      .pure _ fun _ h => h) ⟨rfl, Nat.le_refl _⟩ hrows |>.1
  have hempty' : e.sourceEmpty = false := (congrArg (·.2.1) hmarks).trans hempty
  rw [hempty'] at hlast
  cases hlast
  exact rows_pos hsize hrows

/-- Without rows there is what is selected in a row of Null, if an aggregate was called. -/
theorem exists_of_project_without_rows {d : Context} (hsize : c.size = 0)
    (hgroups : ¬(c.grouped = true ∧ c.emptyGroup.isNone = true))
    (hv : project engine exprs names c = .ok v d) :
    ∃ found e, rows (selectedRow engine exprs names) (standIn c) = .ok found e ∧ found.size = 1 ∧
      v = ⟨names, if e.aggregated then found else #[]⟩ := by
  rw [project, get_bind, if_neg fun h => hgroups h.2] at hv
  simp only [hsize, if_true] at hv
  obtain ⟨⟨⟩, c', hset, hv⟩ := exists_of_bind_eq_ok hv
  obtain rfl : standIn c = c' := by
    cases hset
    rfl
  obtain ⟨found, e, hrows, hv⟩ := exists_of_bind_eq_ok hv
  rw [get_bind] at hv
  cases hv
  have hmarks : e.marks = (standIn c).marks ∧ found.size ≤ 1 := Ensures.rows (fun i =>
    ((steady_marks engine _).values (fun _ _ => .inl trivial) i false).bind fun _ =>
      .pure _ fun _ h => h) ⟨rfl, Nat.le_of_eq (size_standIn c)⟩ hrows
  have hempty : e.sourceEmpty = true := congrArg (·.2.1) hmarks.1
  have hpos := rows_pos (by rw [size_standIn]; exact Nat.one_ne_zero) hrows
  refine ⟨found, e, hrows, by have := hmarks.2; omega, ?_⟩
  rw [hempty]
  cases e.aggregated <;> rfl

/-- Without rows there is at most one row in the result, and none unless an aggregate was called. -/
theorem project_without_rows (hsize : c.size = 0) {d : Context}
    (hv : project engine exprs names c = .ok v d) : v.size ≤ 1 ∧
      (c.aggregated = false → (∀ e ∈ exprs, e.AggregateFree engine.functions) → v.size = 0) := by
  by_cases hgroups : c.grouped = true ∧ c.emptyGroup.isNone = true
  · rw [project, get_bind, if_pos ⟨hsize, hgroups⟩] at hv
    cases hv
    exact ⟨Nat.zero_le 1, fun _ _ => rfl⟩
  · obtain ⟨found, e, hrows, hfound, rfl⟩ := exists_of_project_without_rows hsize hgroups hv
    constructor
    · rw [View.size]
      dsimp only
      split
      · exact Nat.le_of_eq hfound
      · exact Nat.zero_le 1
    · intro hagg hfree
      have hstart : (standIn c).aggregated = false := hagg
      have hagg' : e.aggregated = false := Ensures.rows (fun i =>
        ((steady_unaggregated engine).values (fun e he => .inr (hfree e he)) i false).bind
          fun _ => .pure _ fun _ h => h) ⟨hstart, Nat.le_of_eq (size_standIn c)⟩ hrows |>.1
      rw [hagg']
      rfl

/-- Without rows a limit does nothing. -/
theorem project_limit_without_rows (hc : c.Aligned) (hsize : c.size = 0) {d : Context}
    (hv : project engine exprs names c = .ok v d)
    (hkept : v.size = 0 ∨ first < v.size ∧ 0 < count) :
    (project engine exprs names).runIn (c.reorder ((Limit.mk first (some count)).places c.size)) =
      .ok (v.slice first count) := by
  have hplaces : (Limit.mk first (some count)).places c.size = List.range c.size := by
    rw [Limit.places_eq, hsize]
    simp
  rw [hplaces, hc.reorder_range, runIn_eq_ok.mpr ⟨d, hv⟩]
  obtain hnone | ⟨hfirst, hcount⟩ := hkept
  · rw [View.slice_of_size_zero hnone]
  · have hone := (project_without_rows hsize hv).1
    obtain rfl : first = 0 := by omega
    rw [View.slice_of_size_le (by omega)]

end Step

/-! ### Contexts without their rows -/

/-- The context without its rows. -/
def Context.blank (c : Context) : Context := reorder { c with sawPlainColumn := false } []

theorem Context.Vacant.blank_eq {c : Context} (h : c.Vacant) : c.blank = c := by
  rw [blank, h.forget, h.reorder_nil]

theorem Context.blank_eq_reorder {c : Context} (h : c.sawPlainColumn = false) :
    c.blank = c.reorder [] := by
  rw [blank, ← h]

theorem Frame.take_nil_congr {f g : Frame}
    (h : g.views.map (fun p => (p.1, p.2.fields)) = f.views.map fun p => (p.1, p.2.fields)) :
    g.take [] = f.take [] := by
  refine eq_of_views_of_rows ?_ rfl
  have hviews : ∀ f : Frame, (f.take []).views =
      (f.views.map fun p => (p.1, p.2.fields)).map fun p => (p.1, ⟨p.2, #[]⟩) := by
    intro f
    rw [List.map_map]
    rfl
  rw [hviews, hviews, h]

theorem Context.blank_update (c : Context) {f : Frame} (memo : Array (Labelled Value))
    (h : f.take [] = c.frame.take []) : blank { c with frame := f, memo := memo } = c.blank := by
  simp only [blank, reorder, h, List.map_nil]

/-- Items stand for expressions whatever the rows are. -/
theorem Context.itemExprs_of_blank {c d : Context} (h : d.blank = c.blank) :
    d.itemExprs = c.itemExprs := by
  have hviews : ∀ f : Frame, (f.take []).views.map (fun p => (p.1, p.2.fields)) =
      f.views.map fun p => (p.1, p.2.fields) := fun f => List.map_map
  have hdirect := congrArg Context.direct h
  refine Step.itemExprs_congr hdirect ?_
  rw [← hviews d.frame, ← hviews c.frame]
  exact congrArg (fun c : Context => c.frame.views.map _) h

namespace Step

variable {engine : Engine} {c : Context}

theorem steady_blank (engine : Engine) (b : Context) : Steady engine False (·.blank = b) where
  note h := h
  remember {c} i label v h := by
    rw [Context.remember]
    split
    · exact h
    · exact h
  groupOf hagg := hagg.elim

/-- Without aggregate functions nothing but rows is changed. -/
theorem lasting_blank (engine : Engine) (b : Context) :
    Lasting engine (fun e => False ∨ e.AggregateFree engine.functions) (·.blank = b)
      fun _ c => c.blank = b := by
  have htake : ∀ (c : Context) places, (c.frame.take places).take [] = c.frame.take [] :=
    fun c places => Frame.take_nil_congr (by rw [Frame.take, List.map_map]; rfl)
  refine (steady_blank engine b).lasting (fun _ h => h)
    (fun {c} places h => (c.blank_update _ (htake c places)).trans h)
    (fun {c} places h => (c.blank_update _ (htake c places)).trans h) fun {c _ f} h hf => ?_
  exact (c.blank_update c.memo (Frame.take_nil_congr (congrArg _ hf.views))).trans h

theorem vacant_filter_false (hc : c.Loaded) {d : Context}
    (h : filter engine (.literal (.boolean false)) c = .ok () d) : d.Vacant := by
  rw [filter] at h
  obtain ⟨truths, c', hrows, hd⟩ := exists_of_bind_eq_ok h
  have hsize : d.size = (truePlaces truths).length := by
    cases hd
    exact Frame.size_take _ _
  obtain ⟨-, -, g, hg, rfl⟩ := (local_holds engine (.literal (.boolean false))).rows_of_ok
    (fun i _ => .inr (.of_literal _ _)) hrows
  have hnone : truePlaces ((List.range c.size).map g).toArray = [] := by
    refine List.map_eq_nil_iff.mpr (List.filter_eq_nil_iff.mpr ?_)
    rintro ⟨b, k⟩ hb
    obtain ⟨i, hi, rfl⟩ := List.mem_map.mp (List.fst_mem_of_mem_zipIdx hb)
    have hgi := hg i (List.mem_range.mp hi)
    rw [Expr.evaluator] at hgi
    rw [← Except.ok.inj hgi]
    exact Bool.false_ne_true
  have hloaded := loaded_filter _ hc h
  exact ⟨hloaded.aligned, by rw [hsize, hnone]; rfl, hloaded.unseen⟩

end Step

/-! ### Queries -/

/-- No clause of a query calls an aggregate function over all rows. -/
structure Clauses.Plain (r : Registry) (c : Clauses) : Prop where
  ungrouped : c.groupBy = []
  condition : ∀ e ∈ c.condition, e.AggregateFree r
  having : ∀ e ∈ c.having, e.AggregateFree r
  items : ∀ e, .expr e ∈ c.items → e.Admitted (·.AggregateFree r)
  orderBy : ∀ item ∈ c.orderBy, item.expr.Admitted (·.AggregateFree r)

theorem Clauses.Plain.withoutRows {r : Registry} {c : Clauses} (h : c.Plain r) :
    Plain r { c with condition := some (.literal (.boolean false)), limit := none } where
  ungrouped := h.ungrouped
  condition e he := by
    cases he
    exact .of_literal r _
  having := h.having
  items := h.items
  orderBy := h.orderBy

namespace Statement

open Step

variable {engine : Engine} {tables : Tables} {source : Source} {clauses : Clauses} {v : View}
  {first count : Nat}

/-- How many rows a query has when it comes to its limit. -/
def rowsToLimit (engine : Engine) (tables : Tables) (source : Source) (clauses : Clauses) :
    Except ExecutionError Nat :=
  runIn {} do
    discard (loadSource engine tables source)
    prepare engine clauses
    discard (ordered engine clauses.items clauses.orderBy)
    return (← get).size

/-- When a limit keeps rows of a result as they are. -/
inductive LimitKeeps (engine : Engine) (tables : Tables) (source : Source) (clauses : Clauses)
    (v : View) (first count : Nat) : Prop
  /-- Rows are limited when their duplicates are gone. -/
  | distinct : clauses.quantifier = some .distinct → LimitKeeps engine tables source clauses v first count
  /-- There are no rows in the result. -/
  | empty : v.size = 0 → LimitKeeps engine tables source clauses v first count
  /-- No row is left out. -/
  | all {n : Nat} : rowsToLimit engine tables source clauses = .ok n → n ≤ count →
      v.size ≤ count → first = 0 → LimitKeeps engine tables source clauses v first count
  /-- There are groups. -/
  | groups {n : Nat} : clauses.groupBy ≠ [] → rowsToLimit engine tables source clauses = .ok n →
      n ≠ 0 → LimitKeeps engine tables source clauses v first count
  /-- Some rows are kept, which are groups or not aggregated. -/
  | some : first < v.size → 0 < count →
      (clauses.groupBy ≠ [] ∨ ∀ e, .expr e ∈ clauses.items → e.AggregateFree engine.functions) →
      LimitKeeps engine tables source clauses v first count
  /-- No aggregate is called, and selecting from no rows gives none. -/
  | plain {w : View} : clauses.Plain engine.functions →
      execute engine tables (.select source
        { clauses with condition := some (.literal (.boolean false)), limit := none }) = .ok w →
      w.size = 0 → LimitKeeps engine tables source clauses v first count

/-- What is left when rows were put in order, however they were prepared. -/
theorem ready_ordered {p c : Context} {items : List SelectItem} {order : List OrderItem}
    {exprs : List Expr} {names : List String} (hp : p.Aligned) (hempty : p.sourceEmpty = false)
    (h : ordered engine items order p = .ok (exprs, names) c) :
    c.Aligned ∧ c.marks = p.marks ∧ c.sourceEmpty = false := by
  obtain ⟨-, -, harranged⟩ := ordered_eq_ok.mp h
  have hmarks : c.marks = p.marks := marks_arranged harranged
  refine ⟨?_, hmarks, (congrArg (·.2.1) hmarks).trans hempty⟩
  exact (lasting_aligned engine).arranged (fun _ _ => admitted_all) (fun _ _ => admitted_all) hp
    harranged

theorem grouped_ordered {p c : Context} {items : List SelectItem} {order : List OrderItem}
    {exprs : List Expr} {names : List String} (hp : p.Grouped)
    (h : ordered engine items order p = .ok (exprs, names) c) : c.Grouped := by
  obtain ⟨-, -, harranged⟩ := ordered_eq_ok.mp h
  exact (lasting_grouped engine).arranged (fun _ _ => admitted_all) (fun _ _ => admitted_all) hp
    harranged

/-- A limit keeps groups as they are. -/
theorem project_limit_of_grouped {c d : Context} {exprs : List Expr} {names : List String}
    (hc : c.Grouped) (hv : project engine exprs names c = .ok v d)
    (hkept : c.size ≠ 0 ∨ v.size = 0 ∨ first < v.size ∧ 0 < count) :
    (project engine exprs names).runIn (c.reorder ((Limit.mk first (some count)).places c.size)) =
      .ok (v.slice first count) := by
  by_cases hsize : c.size = 0
  · exact project_limit_without_rows hc.aligned hsize hv (hkept.resolve_left fun h => h hsize)
  have hrows : ∀ i < c.size, c.InGroup i ∨ ∀ e ∈ exprs, e.AggregateFree engine.functions :=
    fun i hi => .inl (hc.inGroup i hi)
  have hv' := runIn_eq_ok.mpr ⟨d, hv⟩
  by_cases hsome : first < v.size ∧ 0 < count
  · exact project_reorder hc.aligned hsize hc.sourceEmpty hrows hv' hsome.1 hsome.2
  · have hplaces : (Limit.mk first (some count)).places c.size = [] := by
      rw [size_project hsize hc.sourceEmpty hrows hv'] at hsome
      rw [Limit.places_eq]
      refine List.eq_nil_iff_length_eq_zero.mpr ?_
      simp
      omega
    have hnone : project engine exprs names (c.reorder []) = .ok (View.empty names) {} :=
      project_without_groups (Context.size_reorder c []) hc.grouped
        (hc.emptyGroup.resolve_right hsize)
    rw [hplaces, runIn_eq_ok.mpr ⟨_, hnone⟩, View.slice_of_none hsome,
      fields_project exprs names trivial hv]

/-- A limit keeps distinct rows as they are. -/
theorem distinctRows_limited {w : View} {order : List OrderItem}
    (hv : distinctRows engine w order none = .ok v) (l : Limit) :
    distinctRows engine w order (some l) = .ok (v.limited (some l)) := by
  rw [distinctRows] at hv ⊢
  obtain ⟨d, hv⟩ := runIn_eq_ok.mp hv
  obtain ⟨⟨⟩, s, hadd, hv⟩ := exists_of_bind_eq_ok hv
  obtain ⟨⟨⟩, p, hgroup, hselect⟩ := exists_of_bind_eq_ok hv
  rw [runIn_bind_of_ok hadd, runIn_bind_of_ok hgroup]
  obtain ⟨groups, p', hgroup, hp'⟩ := exists_of_bind_eq_ok hgroup
  cases hp'
  obtain ⟨exprs, names, c, hordered, hproject⟩ := exists_of_selectAll_eq_ok hselect
  have hp := grouped_groupBy _ (loaded_addView hadd) hgroup
  have hc := grouped_ordered hp.1 hordered
  have hnone : c.size = 0 → v.size = 0 := by
    intro hsize
    by_cases hsize' : p.size = 0
    · -- there were no rows at all, and fields are no aggregates
      have hvacant : p.Vacant := ⟨hp.1.aligned, hsize', hp.2.1⟩
      obtain ⟨⟨l, hl, rfl⟩, -, harranged⟩ := ordered_eq_ok.mp hordered
      rw [hvacant.arranged_eq] at harranged
      cases harranged
      have hkeys : ∀ e ∈ w.fields.map Expr.field, e.AggregateFree engine.functions := by
        intro e he
        obtain ⟨name, -, rfl⟩ := List.mem_map.mp he
        exact .of_field _ name
      have hfield : ∀ e, .expr e ∈ (w.fields.map Expr.field).map SelectItem.expr →
          e.AggregateFree engine.functions := by
        intro e he
        obtain ⟨key, hkey, hexpr⟩ := List.mem_map.mp he
        cases hexpr
        exact hkeys e hkey
      have hagg := unaggregated_groupBy hkeys (unaggregated_addView hadd) hgroup
      exact (project_without_rows hsize hproject).2 hagg
        (forall_itemExprs (.of_field _) (.of_qualified _) hfield hl)
    · have hmarks := (ready_ordered hp.1.aligned hp.1.sourceEmpty hordered).2.1
      have hempty : c.emptyGroup = none :=
        (congrArg (·.2.2) hmarks).trans (hp.1.emptyGroup.resolve_right hsize')
      rw [project_without_groups hsize hc.grouped hempty] at hproject
      cases hproject
      rfl
  have hsame : v.slice l.offset (l.count.getD c.size) = v.limited (some l) := by
    by_cases hsize : c.size = 0
    · rw [View.limited, Option.elim_some, View.slice_of_size_zero (hnone hsize),
        View.slice_of_size_zero (hnone hsize)]
    · rw [View.limited, Option.elim_some, size_project hsize hc.sourceEmpty (fun i hi => .inl (hc.inGroup i hi))
        (runIn_eq_ok.mpr ⟨d, hproject⟩)]
  rw [runIn_selectAll_limit hordered, ← Limit.places_getD, ← hsame]
  refine project_limit_of_grouped hc hproject ?_
  by_cases hsize : c.size = 0
  · exact .inr (.inl (hnone hsize))
  · exact .inl hsize

theorem distinctRows_limit {w : View} {order : List OrderItem}
    (hv : distinctRows engine w order none = .ok v) :
    distinctRows engine w order (some ⟨first, some count⟩) = .ok (v.slice first count) :=
  distinctRows_limited hv ⟨first, some count⟩

theorem ready_prepare {s p : Context} (hs : s.Loaded) (h : prepare engine clauses s = .ok () p) :
    p.Aligned ∧ p.sourceEmpty = false := by
  by_cases hgroup : clauses.groupBy = []
  · have hp := loaded_prepare hgroup hs h
    exact ⟨hp.aligned, hp.sourceEmpty⟩
  · have hp := (grouped_prepare hgroup hs h).1
    exact ⟨hp.aligned, hp.sourceEmpty⟩

/-- Columns of tables are no aggregates. -/
theorem free_ordered {p c : Context} {items : List SelectItem} {order : List OrderItem}
    {exprs : List Expr} {names : List String}
    (h : ordered engine items order p = .ok (exprs, names) c)
    (hitems : ∀ e, .expr e ∈ items → e.AggregateFree engine.functions) :
    ∀ e ∈ exprs, e.AggregateFree engine.functions := by
  obtain ⟨⟨l, hl, rfl⟩, -, -⟩ := ordered_eq_ok.mp h
  exact forall_itemExprs (.of_field _) (.of_qualified _) hitems hl

/-- What a query has to limit is known once its rows were put in order. -/
theorem rowsToLimit_eq {aliases : List String} {s p c : Context} {exprs : List Expr}
    {names : List String} (hload : loadSource engine tables source {} = .ok aliases s)
    (hprepare : prepare engine clauses s = .ok () p)
    (hordered : ordered engine clauses.items clauses.orderBy p = .ok (exprs, names) c) :
    rowsToLimit engine tables source clauses = .ok c.size := by
  rw [rowsToLimit, runIn_bind_of_ok (discard_of_ok hload), runIn_bind_of_ok hprepare,
    runIn_bind_of_ok (discard_of_ok hordered)]
  rfl

/-- Without aggregate functions preparation changes nothing but rows. -/
theorem blank_prepare {s p : Context} (hplain : clauses.Plain engine.functions)
    (h : prepare engine clauses s = .ok () p) : p.blank = s.blank := by
  have L := lasting_blank engine s.blank
  rw [prepare, hplain.ungrouped] at h
  exact Ensures.bind (Ensures.forM_option _ fun e he => L.filter (.inr (hplain.condition e he)))
    (fun _ => .forM_option _ fun e he => L.filter (.inr (hplain.having e he))) rfl h

/-- A condition that is false leaves no rows, and then a condition on groups does nothing. -/
theorem vacant_prepare_false {s p : Context} (hgroup : clauses.groupBy = []) (hs : s.Loaded)
    (h : prepare engine { clauses with condition := some (.literal (.boolean false)), limit := none } s =
      .ok () p) : p.Vacant := by
  rw [prepare, hgroup] at h
  obtain ⟨⟨⟩, z, hfalse, h⟩ := exists_of_bind_eq_ok h
  have hz : z.Vacant := vacant_filter_false hs hfalse
  cases hhaving : clauses.having with
  | none =>
    rw [hhaving] at h
    cases h
    exact hz
  | some e =>
    rw [hhaving] at h
    cases (hz.filter_eq e).symm.trans h
    exact hz

/-- Without aggregate functions putting rows in order changes nothing but rows. -/
theorem blank_arranged {exprs : List Expr} {order : List OrderItem} {p c : Context}
    (hexprs : ∀ e ∈ exprs, e.Admitted (·.AggregateFree engine.functions))
    (horder : ∀ item ∈ order, item.expr.Admitted (·.AggregateFree engine.functions))
    (h : arranged engine exprs order p = .ok () c) : c.blank = p.blank := by
  have hadmitted : ∀ {e : Expr}, e.Admitted (·.AggregateFree engine.functions) →
      e.Admitted fun e => False ∨ e.AggregateFree engine.functions :=
    fun he => ⟨.inr he.self, fun p hp => .inr (he.partition p hp)⟩
  exact (lasting_blank engine p.blank).arranged (fun e he => hadmitted (hexprs e he))
    (fun item hitem => hadmitted (horder item hitem)) rfl h

/-- Without aggregates, from no rows there is selected what is selected when none is kept. -/
theorem project_reorder_none {aliases : List String} {s p c : Context} {exprs : List Expr}
    {names : List String} {w : View} (hplain : clauses.Plain engine.functions)
    (hload : loadSource engine tables source {} = .ok aliases s)
    (hprepare : prepare engine clauses s = .ok () p)
    (hordered : ordered engine clauses.items clauses.orderBy p = .ok (exprs, names) c)
    (hw : execute engine tables (.select source
      { clauses with condition := some (.literal (.boolean false)), limit := none }) = .ok w)
    (hquantifier : clauses.quantifier = none) :
    (project engine exprs names).runIn (c.reorder []) = .ok w := by
  have hs := loaded_loadSource engine tables source rfl hload
  obtain ⟨aliases', s', z, d, hload', hprepare', hselect⟩ := exists_of_execute_eq_ok hw
  cases hload.symm.trans hload'
  have hp : p.Loaded := loaded_prepare hplain.ungrouped hs hprepare
  have hz : z.Vacant := vacant_prepare_false hplain.ungrouped hs hprepare'
  -- apart from rows everything is as the source has left it
  have hsame : z.blank = p.blank :=
    (blank_prepare hplain.withoutRows hprepare').trans (blank_prepare hplain hprepare).symm
  dsimp only at hselect
  rw [hquantifier, select.eq_def] at hselect
  obtain ⟨exprs', names', z', hordered', hproject⟩ := exists_of_selectAll_eq_ok hselect
  obtain ⟨⟨l', hl', rfl⟩, hnames', harranged'⟩ := ordered_eq_ok.mp hordered'
  rw [hz.arranged_eq] at harranged'
  cases harranged'
  obtain ⟨⟨l, hl, rfl⟩, hnames, harranged⟩ := ordered_eq_ok.mp hordered
  rw [Context.itemExprs_of_blank hsame, hl] at hl'
  obtain rfl : l = l' := Except.ok.inj hl'
  obtain rfl : names = names' := Except.ok.inj (hnames.symm.trans hnames')
  have hexprs : ∀ e ∈ l.flatten, e.Admitted (·.AggregateFree engine.functions) :=
    forall_itemExprs (fun name => ⟨.of_field _ name, fun p hp => by cases hp⟩)
      (fun table name => ⟨.of_qualified _ table name, fun p hp => by cases hp⟩) hplain.items hl
  have hunseen : c.sawPlainColumn = false := (lasting_unseen engine).arranged
    (fun _ _ => admitted_all) (fun _ _ => admitted_all) hp.unseen harranged
  rw [← Context.blank_eq_reorder hunseen, blank_arranged hexprs hplain.orderBy harranged, ← hsame,
    hz.blank_eq]
  exact runIn_eq_ok.mpr ⟨d, hproject⟩

/-- A limit keeps rows of a result as they are. -/
theorem execute_limit
    (hv : execute engine tables (.select source { clauses with limit := none }) = .ok v)
    (h : LimitKeeps engine tables source clauses v first count) :
    execute engine tables (.select source { clauses with limit := some ⟨first, some count⟩ }) =
      .ok (v.slice first count) := by
  obtain ⟨aliases, s, p, d, hload, hprepare, hselect⟩ := exists_of_execute_eq_ok hv
  have hprepare' : prepare engine { clauses with limit := some ⟨first, some count⟩ } s = .ok () p :=
    hprepare
  rw [execute_of_prepared hload hprepare']
  dsimp only at hselect ⊢
  rw [select.eq_def] at hselect ⊢
  cases hquantifier : clauses.quantifier with
  | some quantifier =>
    rw [hquantifier] at hselect
    cases quantifier with
    | all => cases hselect
    | distinct =>
      dsimp only at hselect ⊢
      obtain ⟨w, c, hall, hdistinct⟩ := exists_of_bind_eq_ok hselect
      obtain ⟨hdistinct, -⟩ := lift_eq_ok hdistinct
      rw [runIn_bind_of_ok hall, runIn_lift, distinctRows_limit hdistinct]
  | none =>
    rw [hquantifier] at hselect
    dsimp only at hselect ⊢
    obtain ⟨exprs, names, c, hordered, hproject⟩ := exists_of_selectAll_eq_ok hselect
    rw [runIn_selectAll_limit hordered]
    have hs := loaded_loadSource engine tables source rfl hload
    obtain ⟨halign, hempty⟩ := ready_prepare hs hprepare
    obtain ⟨hc, -, hempty'⟩ := ready_ordered halign hempty hordered
    have hgroups : clauses.groupBy ≠ [] → c.Grouped := fun hgroup =>
      grouped_ordered (grouped_prepare hgroup hs hprepare).1 hordered
    have hv' := runIn_eq_ok.mpr ⟨d, hproject⟩
    -- a limit that keeps rows keeps those of the result if they are looked at alone
    have hsome : first < v.size → 0 < count → (clauses.groupBy ≠ [] ∨
        ∀ e, .expr e ∈ clauses.items → e.AggregateFree engine.functions) →
        (project engine exprs names).runIn
          (c.reorder ((Limit.mk first (some count)).places c.size)) = .ok (v.slice first count) := by
      intro hfirst hcount hfree
      by_cases hsize : c.size = 0
      · exact project_limit_without_rows hc hsize hproject (.inr ⟨hfirst, hcount⟩)
      · refine project_reorder hc hsize hempty' (fun i hi => ?_) hv' hfirst hcount
        exact hfree.imp (fun hgroup => (hgroups hgroup).inGroup i hi) (free_ordered hordered)
    cases h with
    | distinct hdistinct =>
      rw [hquantifier] at hdistinct
      cases hdistinct
    | empty hnone =>
      have hsize : c.size = 0 := by
        by_contra hsize
        exact project_pos hsize hempty' hproject hnone
      exact project_limit_without_rows hc hsize hproject (.inl hnone)
    | @all n hn hcount hsize hfirst =>
      obtain rfl : c.size = n := Except.ok.inj ((rowsToLimit_eq hload hprepare hordered).symm.trans hn)
      have hplaces : (Limit.mk first (some count)).places c.size = List.range c.size := by
        rw [Limit.places_eq, hfirst, List.drop_zero, List.take_of_length_le (by simpa using hcount)]
      rw [hplaces, hc.reorder_range, hv', hfirst, View.slice_of_size_le hsize]
    | @groups n hgroup hn hpos =>
      obtain rfl : c.size = n := Except.ok.inj ((rowsToLimit_eq hload hprepare hordered).symm.trans hn)
      exact project_limit_of_grouped (hgroups hgroup) hproject (.inl hpos)
    | some hfirst hcount hfree => exact hsome hfirst hcount hfree
    | @plain w hplain hw hnone =>
      by_cases hkept : first < v.size ∧ 0 < count
      · exact hsome hkept.1 hkept.2 (.inr fun e he => (hplain.items e he).self)
      · have hplaces : (Limit.mk first (some count)).places c.size = [] := by
          rw [Limit.places_eq]
          refine List.eq_nil_iff_length_eq_zero.mpr ?_
          by_cases hsize : c.size = 0
          · simp [hsize]
          · have hfree := free_ordered hordered fun e he => (hplain.items e he).self
            rw [size_project hsize hempty' (fun i hi => .inr hfree) hv'] at hkept
            simp
            omega
        have hreorder := project_reorder_none hplain hload hprepare hordered hw hquantifier
        obtain ⟨e, hproject'⟩ := runIn_eq_ok.mp hreorder
        rw [hplaces, hreorder, View.slice_of_none hkept, View.eq_empty hnone,
          fields_project exprs names trivial hproject', fields_project exprs names trivial hproject]

theorem execute_limit_numbers : execute .builtin numbers (.select (.factor (.table "t" none))
    { selecting [.expr (.field "x")] with limit := some ⟨1, some 1⟩ }) =
      .ok ⟨["x"], #[.ofList [("x", .ofNat 2)]]⟩ := by
  have hv : execute .builtin numbers (.select (.factor (.table "t" none))
      { selecting [.expr (.field "x")] with limit := none }) = .ok ⟨["x"],
        #[.ofList [("x", .ofNat 1)], .ofList [("x", .ofNat 2)], .ofList [("x", .ofNat 3)]]⟩ := rfl
  refine execute_limit hv (.some (by decide) (by decide) (.inr fun e he => ?_))
  cases List.mem_singleton.mp he
  exact .of_field _ "x"

/-- An aggregate looks only at the rows that a limit has left. -/
theorem not_forall_execute_limit : ¬ ∀ (engine : Engine) (tables : Tables) (source : Source)
    (clauses : Clauses) (v : View) (first count : Nat),
    execute engine tables (.select source { clauses with limit := none }) = .ok v →
    execute engine tables (.select source { clauses with limit := some ⟨first, some count⟩ }) =
      .ok (v.slice first count) := by
  intro h
  let counting (limit : Option Limit) := execute .builtin numbers
    (.select (.factor (.table "t" none))
      { selecting [.expr (.aliased (.callStar "count") "n")] with limit := limit })
  have hall : ((counting none).toOption.map fun v => (v.value 0 "n").equal (.ofNat 1)) =
      some false := by decide +kernel
  have hone : ((counting (some ⟨0, some 1⟩)).toOption.map fun v =>
      (v.value 0 "n").equal (.ofNat 1)) = some true := by decide +kernel
  obtain ⟨v, hv, hvalue⟩ := Option.map_eq_some_iff.mp hall
  have hcounting := h _ _ _ _ v 0 1 (eq_ok_of_toOption hv)
  rw [show counting (some ⟨0, some 1⟩) = .ok (v.slice 0 1) from hcounting] at hone
  have hvalue' : ((v.slice 0 1).value 0 "n").equal (.ofNat 1) = true := Option.some.inj hone
  rw [v.value_slice Nat.one_pos, hvalue] at hvalue'
  exact Bool.false_ne_true hvalue'

end Statement

end TableQuery
