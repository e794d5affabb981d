/-
Rows that are looked at alone.

A loop over rows looks at one row after the other, and what it finds in a row is what would be found there
at the beginning, unless an aggregate has taken all columns away on the way. So the results of a loop that
leaves the columns there are the results of all rows alone, and rows that have results alone have them in a
loop. Other than an action that is local, one that is looked at alone may call aggregates, as long as it
fails then.

* `Step.Alone` — what is found in a row depends on that row alone, as long as the columns are there;
* `Step.Alone.of_rows`, `Step.Alone.rows` — loops;
* `Step.spent_values` — columns that are read stay there;
* `Step.exists_of_selectedRows`, `Step.project_alone` — selecting a column from rows.
-/
import TableQuery.Proofs.NearRows
import TableQuery.Proofs.Projection

namespace TableQuery

namespace Expr

/-- The expression is selected, with an alias or without. -/
def SelectedIn (exprs : List Expr) (e : Expr) : Prop := e ∈ exprs ∨ ∃ name, .aliased e name ∈ exprs

/-- An alias changes nothing about the value of an expression. -/
theorem value_aliased (engine : Engine) (e : Expr) (name : String) :
    ((aliased e name).evaluator engine).value engine = (e.evaluator engine).value engine := by
  rw [evaluator]
  rfl

theorem SelectedIn.value_of_cons (engine : Engine) {item e : Expr} {exprs : List Expr}
    (h : e.SelectedIn (item :: exprs)) :
    (item.evaluator engine).value engine = (e.evaluator engine).value engine ∨ e.SelectedIn exprs := by
  rcases h with h | ⟨name, h⟩
  · exact (List.mem_cons.mp h).imp (fun he => by rw [he]) .inl
  · exact (List.mem_cons.mp h).imp (fun he => by rw [← he, value_aliased]) fun h => .inr ⟨name, h⟩

end Expr

namespace Step

open Context

variable {engine : Engine} {α β : Type} {action : Nat → Step α} {c d : Context} {es : List Expr}

/-- In rows that hold the same the action comes to the same, unless it takes all columns away. -/
structure Alone (action : Nat → Step α) : Prop where
  stays : ∀ {i c a d}, c.Void → action i c = .ok a d → d.Void
  follows : ∀ {i j c d a c'}, c.SameRow i j d → action i c = .ok a c' →
    c'.Void ∨ c.Touched (· = i) c' ∧ ∃ d', action j d = .ok a d' ∧ d.Touched (· = j) d'

theorem alone_values (engine : Engine) (es : List Expr) :
    Alone fun i => Evaluator.values engine (Expr.evaluators engine es) i false where
  stays hc h := (steady_void engine).values (fun _ _ => .inl trivial) _ false hc h
  follows {i j c d xs c'} s h := by
    have hnone : Expr.Family fun _ => False := ⟨fun h _ => h, fun h _ _ _ => h.elim⟩
    have hclear : ∀ e ∈ es, e.Clear fun _ => False := fun e _ q _ _ r hr => hr.elim
    have hshows : c.Shows [] .empty i := nofun
    have hfinds : c.Finds [] := nofun
    obtain hvoid | ⟨d', hd', hnear⟩ := near_values hnone (fun _ h => h.elim) hclear hshows hfinds
      (s.near engine .empty) h
    · exact .inl hvoid
    · exact .inr ⟨hnear.touched, d', hd', hnear.otherTouched⟩

namespace Alone

theorem map (h : Alone action) (f : α → β) : Alone fun i => do return f (← action i) where
  stays hc he := by
    obtain ⟨a, c', ha, hlast⟩ := exists_of_bind_eq_ok he
    cases hlast
    exact h.stays hc ha
  follows s he := by
    obtain ⟨a, c', ha, hlast⟩ := exists_of_bind_eq_ok he
    cases hlast
    refine (h.follows s ha).imp_right fun ⟨t, d', hd', t'⟩ => ⟨t, d', ?_, t'⟩
    exact bind_of_ok hd'

/-- The results of a loop that leaves the columns there are those of the rows alone. -/
theorem of_rows (h : Alone action) {as : Array α} (hrows : rows action c = .ok as d) :
    d.Void ∨ c.Touched (· < c.size) d ∧ as.size = c.size ∧
      ∀ i a, as[i]? = some a → ∃ e, action i c = .ok a e ∧ c.Touched (· = i) e := by
  have hafter : ∀ n (done : Array α) {d d' : Context} {as : Array α}, done.size + n = c.size →
      c.Touched (· < done.size) d →
      (∀ i a, done[i]? = some a → ∃ e, action i c = .ok a e ∧ c.Touched (· = i) e) →
      rowsAfter action done n d = .ok as d' →
      d'.Void ∨ c.Touched (· < c.size) d' ∧ as.size = c.size ∧
        ∀ i a, as[i]? = some a → ∃ e, action i c = .ok a e ∧ c.Touched (· = i) e := by
    intro n
    -- by induction on the rows that are left; columns that are gone do not come back
    induction n with
    | zero =>
      intro done d d' as hn ht hdone hd
      cases hd
      exact .inr ⟨ht.mono fun i hi => by omega, hn, hdone⟩
    | succ n ih =>
      intro done d d' as hn ht hdone hd
      have hlt : done.size < d.size := by rw [ht.size]; omega
      rw [rowsAfter, get_bind, if_pos hlt] at hd
      obtain ⟨a, e, ha, hrest⟩ := exists_of_bind_eq_ok hd
      obtain hvoid | ⟨t, c', hc', t'⟩ := h.follows (ht.sameRow (Nat.lt_irrefl _)).symm ha
      · exact .inl (Ensures.rowsAfter (fun i c a d hc he => h.stays hc he) n _ hvoid hrest).1
      refine ih (done.push a) (by rw [Array.size_push]; omega) ?_ (fun i b hb => ?_) hrest
      · rw [Array.size_push]
        exact (ht.mono fun i hi => Nat.lt_succ_of_lt hi).trans (t.mono fun i hi => by omega)
      · rw [Array.getElem?_push] at hb
        split at hb
        · next hi =>
          obtain rfl := Option.some.inj hb
          subst hi
          exact ⟨c', hc', t'⟩
        · exact hdone i b hb
  rw [Step.rows, get_bind] at hrows
  exact hafter c.size #[] (by simp) (.refl _ c) (fun i a ha => by simp at ha) hrows

/-- Rows that have results alone have them in a loop. -/
theorem rows {g : Nat → α} (h : Alone action)
    (hg : ∀ i < c.size, ∃ e, action i c = .ok (g i) e ∧ ¬e.Void) :
    ∃ d, Step.rows action c = .ok ((List.range c.size).map g).toArray d ∧ c.Touched (· < c.size) d := by
  have hstep : ∀ k < c.size, ∀ d, c.Touched (· < k) d →
      Answers (action k) d (fun _ d' => c.Touched (· < k + 1) d') (.ok (g k)) := by
    intro k hk d t
    obtain ⟨e, he, hvoid⟩ := hg k hk
    obtain ⟨-, d', hd', t'⟩ := (h.follows (t.sameRow (Nat.lt_irrefl k)) he).resolve_left hvoid
    exact .ok hd' ((t.mono fun i hi => Nat.lt_succ_of_lt hi).trans
      (t'.mono fun i hi => hi ▸ k.lt_succ_self))
  have hanswers := Answers.rows (I := fun k d => c.Touched (· < k) d) (.refl _ c)
    (fun _ d t => t.size) hstep
  rw [mapM_eq_ok fun _ _ => rfl] at hanswers
  exact hanswers.eq_ok

end Alone

/-! ### Columns that are read -/

theorem direct_of_resolve {name table : String}
    (h : c.resolve name = .ok table) : c.direct.get? name = some table := by
  rw [Context.resolve] at h
  split at h
  · next hdirect =>
    cases h
    exact hdirect
  · split at h <;> cases h

/-- A column that was read stays noticed, and with it all others stay there. -/
theorem steady_kept (engine : Engine) : Steady engine True Context.Spent where
  note h := ⟨rfl, fun hvoid => h.2 hvoid.of_note⟩
  remember {c} i label v h := by
    have t := (Touched.refl (fun _ => True) c).remember (i := i) trivial engine label v
    refine ⟨?_, fun hvoid => h.2 ⟨t.frame ▸ hvoid.views, t.direct ▸ hvoid.direct,
      t.ambiguous ▸ hvoid.ambiguous⟩⟩
    rw [remember_eq]
    exact h.1
  groupOf _ i := by
    intro c g d hc he
    obtain ⟨-, -, rfl⟩ | ⟨hsaw, -, -⟩ := groupOf_eq_ok he
    · exact ⟨hc.1, fun hvoid => hc.2 ⟨hvoid.views, hvoid.direct, hvoid.ambiguous⟩⟩
    · exact absurd (hsaw.symm.trans hc.1) Bool.false_ne_true

theorem kept_readField (name : String) (i : Nat) :
    Ensures (fun _ => True) (readField name i false) fun _ => Context.Spent := by
  intro c x d _ h
  obtain ⟨⟨table, hr⟩, rfl⟩ := readField_eq_ok h
  refine ⟨rfl, fun hvoid => ?_⟩
  rw [resolve, show c.direct = _ from hvoid.direct, show c.ambiguous = _ from hvoid.ambiguous] at hr
  cases hr

/-- Where a column is among several expressions it stays there. -/
theorem spent_values {name : String} (hes : (Expr.field name).SelectedIn es) (i : Nat) :
    Ensures (fun _ => True) (Evaluator.values engine (Expr.evaluators engine es) i false)
      fun _ => Context.Spent := by
  induction es with
  | nil => simp [Expr.SelectedIn] at hes
  | cons e es ih =>
    intro c xs d _ h
    obtain ⟨x, c', ys, hx, hys, -⟩ := exists_of_values_cons h
    obtain he | hes := hes.value_of_cons engine
    · rw [he, Expr.evaluator] at hx
      exact (steady_kept engine).values (fun _ _ => .inl trivial) i false
        (kept_readField name i trivial hx) hys
    · exact ih hes trivial hys

/-- Columns belong to the views that they belonged to, or they are all gone. -/
theorem steady_direct (engine : Engine) (direct : Labelled String) :
    Steady engine True fun c => c.Void ∨ c.direct = direct where
  note h := h.imp_left fun hvoid => hvoid.note true
  remember {c} i label v h := by
    have t := (Touched.refl (fun _ => True) c).remember (i := i) trivial engine label v
    exact h.imp ((steady_void engine).remember i label v) fun h => t.direct.trans h
  groupOf _ i := by
    intro c g d hc he
    obtain ⟨-, -, rfl⟩ | ⟨-, -, rfl⟩ := groupOf_eq_ok he
    · exact hc.imp_left fun hvoid => ⟨hvoid.views, hvoid.direct, hvoid.ambiguous⟩
    · exact .inl c.void_collapse

theorem not_void_of_direct {name table : String} (h : c.direct.get? name = some table) : ¬c.Void := by
  intro hvoid
  rw [hvoid.direct] at h
  cases h

/-- A column that is read among several expressions belongs to a single view from the beginning. -/
theorem direct_of_values {name : String} {i : Nat} {xs : List Value}
    (hes : (Expr.field name).SelectedIn es)
    (h : Evaluator.values engine (Expr.evaluators engine es) i false c = .ok xs d) :
    ∃ table, c.direct.get? name = some table := by
  induction es generalizing c xs with
  | nil => simp [Expr.SelectedIn] at hes
  | cons e es ih =>
    obtain ⟨x, c', ys, hx, hys, -⟩ := exists_of_values_cons h
    obtain he | hes := hes.value_of_cons engine
    · rw [he, Expr.evaluator] at hx
      obtain ⟨⟨table, hr⟩, -⟩ := readField_eq_ok hx
      exact ⟨table, direct_of_resolve hr⟩
    · obtain ⟨table, htable⟩ := ih hes hys
      have hsame := (steady_direct engine c.direct).evaluate (.inl trivial) i false (.inr rfl) hx
      exact ⟨table, hsame.resolve_left (not_void_of_direct htable) ▸ htable⟩

/-! ### Selecting a column -/

section Project

variable {exprs : List Expr} {names : List String} {v : View} {name : String}

/-- When a column is selected from rows, each gives the row that it gives alone. -/
theorem exists_of_selectedRows {found : Array Row} (hfield : (Expr.field name).SelectedIn exprs)
    (hsize : c.size ≠ 0) (h : rows (selectedRow engine exprs names) c = .ok found d) :
    c.Touched (· < c.size) d ∧ ∃ row : Nat → List Value,
      found = ((List.range c.size).map fun i => Labelled.ofList (names.zip (row i))).toArray ∧
      ∀ i < c.size, ∃ e, Evaluator.values engine (Expr.evaluators engine exprs) i false c =
        .ok (row i) e := by
  have hspent : ∀ i, Ensures (fun _ => True) (selectedRow engine exprs names i)
      fun _ => Context.Spent := fun i => (spent_values hfield i).bind fun _ => .pure _ fun _ h => h
  -- the column was read in the last row at the latest
  have hlasting := Ensures.rows_from (J := fun k c => k ≠ 0 → c.Spent)
    (fun i => (hspent i).mono (fun _ _ => trivial) fun _ _ h _ => h) (absurd rfl) h
  have hkept := hlasting (rows_pos hsize h)
  obtain ⟨t, hcount, hfound⟩ := (((alone_values engine exprs).map _).of_rows h).resolve_left hkept.2
  have hrow : ∀ i, i < c.size → ∃ xs, found[i]? = some (Labelled.ofList (names.zip xs)) ∧ ∃ e,
      Evaluator.values engine (Expr.evaluators engine exprs) i false c = .ok xs e := by
    intro i hi
    have hget : found[i]? = some found[i] := Array.getElem?_eq_getElem (hcount.symm ▸ hi)
    obtain ⟨e, he, -⟩ := hfound i _ hget
    obtain ⟨xs, e', hxs, he⟩ := exists_of_bind_eq_ok he
    injection he with hrow _
    exact ⟨xs, by rw [hget, hrow], e', hxs⟩
  choose! row hrow using hrow
  refine ⟨t, row, Array.ext (by simp [hcount]) fun i hi hi' => ?_, fun i hi => (hrow i hi).2⟩
  obtain ⟨hget, -⟩ := hrow i (hcount ▸ hi)
  rw [Array.getElem?_eq_getElem hi] at hget
  simpa using Option.some.inj hget

/-- So the rows of the result are those that rows give alone. -/
theorem exists_of_project_alone (hfield : (Expr.field name).SelectedIn exprs) (hsize : c.size ≠ 0)
    (hempty : c.sourceEmpty = false) (h : project engine exprs names c = .ok v d) :
    ∃ row : Nat → List Value, v = ⟨names, ((List.range c.size).map fun i =>
        Labelled.ofList (names.zip (row i))).toArray⟩ ∧
      ∀ i < c.size, ∃ e, Evaluator.values engine (Expr.evaluators engine exprs) i false c =
        .ok (row i) e := by
  rw [project, get_bind, if_neg fun h => hsize h.1] at h
  simp only [hsize, if_false] at h
  obtain ⟨found, e, hrows, hlast⟩ := exists_of_bind_eq_ok h
  obtain ⟨t, row, rfl, hrow⟩ := exists_of_selectedRows hfield hsize hrows
  rw [get_bind, show e.sourceEmpty = false from t.sourceEmpty.trans hempty] at hlast
  cases hlast
  exact ⟨row, rfl, hrow⟩

/-- When a column is selected, rows give what they give alone. -/
theorem project_alone {row : Nat → List Value} (hfield : (Expr.field name).SelectedIn exprs)
    (hsize : c.size ≠ 0) (hempty : c.sourceEmpty = false)
    (hrow : ∀ i < c.size, ∃ e, Evaluator.values engine (Expr.evaluators engine exprs) i false c =
      .ok (row i) e) :
    (project engine exprs names).runIn c = .ok ⟨names, ((List.range c.size).map fun i =>
      Labelled.ofList (names.zip (row i))).toArray⟩ := by
  have halone := (alone_values engine exprs).map fun xs => Labelled.ofList (names.zip xs)
  obtain ⟨e, he, t⟩ := halone.rows (c := c) (g := fun i => Labelled.ofList (names.zip (row i)))
    fun i hi => by
      obtain ⟨e, he⟩ := hrow i hi
      exact ⟨e, bind_of_ok he, (spent_values hfield i trivial he).2⟩
  refine runIn_eq_ok.mpr ⟨{}, ?_⟩
  rw [project, get_bind, if_neg fun h => hsize h.1]
  simp only [hsize, if_false]
  refine (bind_of_ok he).trans ?_
  rw [get_bind, show e.sourceEmpty = false from t.sourceEmpty.trans hempty]
  rfl

end Project

end Step

end TableQuery
