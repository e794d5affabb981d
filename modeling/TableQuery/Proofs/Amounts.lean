/-
Values that are computed from columns.

An expression without aggregates, windows and fields of certain tables is computed from the cells of some
columns alone. What it comes to in a row is then a matter of these cells (`Expr.amount`), wherever the row
is: in a source, among groups, or in a result whose columns are these. The memory of the row has to bear
this out: what is remembered under the label of an expression has to be what the expression comes to.

* `Expr.Over` — expressions that are computed from certain columns;
* `Context.Shows`, `Context.Vouches` — a row that has certain cells, and one whose memory is right for them;
* `Expr.Over.of_value`, `Expr.Over.exists_value` — in such a row the value is the amount, and there is one
  if there is an amount;
* `Expr.Over.of_values`, `Expr.Over.exists_values` — the same for several expressions.
-/
import TableQuery.Proofs.GroupRows
import TableQuery.Proofs.KeyCondition
import TableQuery.Proofs.Memory

namespace TableQuery

namespace Expr

/-- The value is computed from the cells of certain columns alone. -/
inductive Over (r : Registry) (fields : List String) : Expr → Prop
  | field {name : String} : name ∈ fields → Over r fields (.field name)
  | composed {e : Expr} : e.isComposed = true → (∀ p ∈ e.operands, Over r fields p) → Over r fields e
  | call {e : Expr} {name : String} : e.callee? = some name → r.isAggregate name = false →
      (∀ p ∈ e.operands, Over r fields p) → Over r fields e

namespace Over

variable {r : Registry} {fields : List String} {e p : Expr}

theorem operand (h : e.Over r fields) (hp : p ∈ e.operands) : p.Over r fields := by
  cases h with
  | field => cases hp
  | composed _ h => exact h p hp
  | call _ _ h => exact h p hp

theorem aggregateFree (h : e.Over r fields) : e.AggregateFree r := by
  induction e using operands_induction with
  | step e ih =>
  refine .intro (fun name hname => ?_) fun p hp => ih p hp (h.operand hp)
  cases h with
  | field => cases hname
  | composed hcomposed => cases e <;> cases hname <;> cases hcomposed
  | call hcallee hnot _ =>
    rw [hcallee] at hname
    exact Option.some.inj hname ▸ hnot

/-- Parentheses leave what is computed as it is. -/
theorem body (h : e.Over r fields) : e.body.Over r fields := by
  induction e using operands_induction with
  | step e ih =>
  cases e with
  | paren e =>
    rw [Expr.body]
    exact ih e (by simp [operands]) (h.operand (by simp [operands]))
  | _ => exact h

theorem mem_of_body {name : String} (h : e.Over r fields) (hbody : e.body = .field name) :
    name ∈ fields := by
  have hfield := h.body
  rw [hbody] at hfield
  cases hfield with
  | field hname => exact hname
  | composed hcomposed => cases hcomposed
  | call hcallee => cases hcallee

theorem window?_eq_none (h : e.Over r fields) : e.window? = none := by
  induction e using operands_induction with
  | step e ih =>
  cases e with
  | window =>
    cases h with
    | composed hcomposed => cases hcomposed
    | call hcallee => cases hcallee
  | aliased e name =>
    rw [window?]
    exact ih e (by simp [operands]) (h.operand (by simp [operands]))
  | paren e =>
    rw [window?]
    exact ih e (by simp [operands]) (h.operand (by simp [operands]))
  | _ => rfl

end Over

end Expr

/-! ### Amounts -/

/-- A context with a single row, in which every cell is a column. -/
def Context.ofRow (row : Row) : Context where
  frame := ⟨[("", ⟨row.labels, #[row]⟩)], #[{}]⟩
  direct := .ofList (row.labels.map fun name => (name, ""))

/-- What an expression comes to when it is computed from the cells of a row. -/
def Expr.amount (engine : Engine) (row : Row) (e : Expr) : Except ExecutionError Value :=
  (Step.evaluate engine.recomputing e 0 false).runIn (.ofRow row)

namespace Context

variable {engine : Engine} {parts : Expr → Prop} {fields : List String} {row : Row} {i : Nat}
  {c d start : Context} {x : Value}

theorem readField_ofRow {name : String} (hx : row.get? name = some x)
    (h : (ofRow row).Touched (fun _ => True) d) :
    Step.readField name 0 false d = .ok x { d with sawPlainColumn := true } := by
  have hmem : name ∈ row.labels := by
    obtain ⟨before, after, hentries, -⟩ := List.lookup_eq_some_iff.mp hx
    rw [Labelled.labels, hentries]
    simp
  have hdirect : (ofRow row).direct.get? name = some "" := by
    refine Labelled.get?_ofList_eq_some (List.mem_map_of_mem hmem) fun e he _ => ?_
    obtain ⟨_, -, rfl⟩ := List.mem_map.mp he
    rfl
  have hresolve : d.resolve name = .ok "" := by
    rw [resolve, h.direct, hdirect]
  rw [Step.readField_apply, hresolve, h.frame]
  have hcell : ((View.mk row.labels #[row]).value 0 name) = x := by
    rw [View.value]
    simp [hx]
  exact congrArg (fun x => EStateM.Result.ok x _) hcell

/-- Nothing is remembered about the row, and nothing ever will be. -/
theorem memo_ofRow (h : (ofRow row).Touched (fun _ => True) d) : d.memo = #[] :=
  Array.eq_empty_of_size_eq_zero h.size_memo

theorem remembered?_ofRow (h : (ofRow row).Touched (fun _ => True) d) (label : String) :
    d.remembered? engine 0 label = none := by
  rw [remembered?, memo_ofRow h, h.frame]
  cases engine.remembers <;> rfl

/-- The amount comes out whatever was computed before. -/
theorem answers_amount {e : Expr} (he : e.AggregateFree engine.functions)
    (h : (ofRow row).Touched (fun _ => True) d) :
    Step.Answers ((e.evaluator engine.recomputing).value engine.recomputing 0 false) d
      (fun _ d' => (ofRow row).Touched (fun _ => True) d') (e.amount engine row) := by
  have hothers : (ofRow row).Touched (· ≠ 0) d :=
    { h with memo := fun k _ => by rw [memo_ofRow h]; rfl }
  refine ((Step.local_evaluate engine.recomputing e false).answers (.inr he) hothers).mono ?_
  exact fun _ d' _ t => h.trans (t.mono fun _ _ => trivial)

/-! ### Rows that show their cells -/

/-- The row has certain cells, as far as its columns can be told apart from those of other views. -/
def Shows (fields : List String) (row : Row) (c : Context) (i : Nat) : Prop :=
  ∀ name ∈ fields, ∃ x, row.get? name = some x ∧
    ∀ table, c.direct.get? name = some table → c.cell ⟨table, name⟩ i = x

/-- Every column belongs to a single view. -/
def Finds (fields : List String) (c : Context) : Prop :=
  ∀ name ∈ fields, ∃ table, c.direct.get? name = some table

theorem Shows.congr (h : c.Shows fields row i) (hframe : d.frame = c.frame)
    (hdirect : d.direct = c.direct) : d.Shows fields row i := by
  intro name hname
  obtain ⟨x, hx, hcell⟩ := h name hname
  refine ⟨x, hx, fun table htable => ?_⟩
  rw [cell, hframe]
  exact hcell table (hdirect ▸ htable)

theorem Shows.touched {rows : Nat → Prop} (h : c.Shows fields row i) (t : c.Touched rows d) :
    d.Shows fields row i := h.congr t.frame t.direct

theorem Finds.touched {rows : Nat → Prop} (h : c.Finds fields) (t : c.Touched rows d) :
    d.Finds fields := by
  intro name hname
  rw [t.direct]
  exact h name hname

/-- What is remembered for the row under the label of a part is what the part amounts to. -/
def Vouches (engine : Engine) (parts : Expr → Prop) (row : Row) (c : Context) (i : Nat) : Prop :=
  ∀ r, parts r → r.isRemembered = true → ∀ x, c.remembered? engine i r.label = some x →
    r.amount engine row = .ok x

/-- Parts were evaluated in the row, and nothing else has changed. -/
structure Worked (engine : Engine) (parts : Expr → Prop) (row : Row) (i : Nat) (c d : Context) :
    Prop where
  touched : c.Touched (· = i) d
  vouches : d.Vouches engine parts row i
  other : ∀ label, (∀ r, parts r → r.isRemembered = true → r.label ≠ label) →
    d.remembered? engine i label = c.remembered? engine i label

theorem Worked.refl (h : c.Vouches engine parts row i) : Worked engine parts row i c c :=
  ⟨.refl _ c, h, fun _ _ => rfl⟩

theorem Worked.trans (h : Worked engine parts row i start c) (h' : Worked engine parts row i c d) :
    Worked engine parts row i start d :=
  ⟨h.touched.trans h'.touched, h'.vouches, fun label hl => (h'.other label hl).trans (h.other label hl)⟩

theorem Worked.note (h : Worked engine parts row i c d) (b : Bool) :
    Worked engine parts row i c { d with sawPlainColumn := b } :=
  ⟨h.touched.note b, h.vouches, h.other⟩

/-- What is remembered under one label leaves the others as they are. -/
theorem remembered?_remember_ne {label other : String} (hne : other ≠ label) (i k : Nat) (v : Value) :
    (c.remember engine i label v).remembered? engine k other = c.remembered? engine k other := by
  rw [remember]
  split
  · rw [remembered?, remembered?, Array.getElem?_modify]
    by_cases hik : i = k
    · rw [if_pos hik, Option.bind_map]
      simp only [Function.comp_def, fun m : Labelled Value => m.get?_put_ne v hne]
    · rw [if_neg hik]
  · rfl

/-- A value is found under its label if there is a memory of the row. -/
theorem remembered?_remember_self (c : Context) (engine : Engine) (i : Nat) (label : String) (v : Value) :
    (c.remember engine i label v).remembered? engine i label =
      if engine.remembers = true ∧ i < c.memo.size then some v
      else c.remembered? engine i label := by
  rw [remember]
  by_cases hremembers : engine.remembers = true
  · rw [if_pos hremembers, remembered?, Array.getElem?_modify, if_pos rfl, if_pos hremembers]
    by_cases hi : i < c.memo.size
    · simp [hremembers, hi]
    · have hnone : c.memo[i]? = none := Array.getElem?_eq_none (Nat.le_of_not_lt hi)
      rw [remembered?, hnone, if_pos hremembers, if_neg fun h => hi h.2]
      rfl
  · rw [if_neg hremembers, if_neg fun h => hremembers h.1]

/-- The amount of a part may be remembered. -/
theorem Worked.remember (hparts : Expr.Family parts) (h : Worked engine parts row i c d) {e : Expr}
    (he : parts e) (hr : e.isRemembered = true) (hx : e.amount engine row = .ok x) :
    Worked engine parts row i c (d.remember engine i e.label x) where
  touched := h.touched.remember rfl engine e.label x
  vouches r hpart hr' y hy := by
    by_cases hlabel : r.label = e.label
    · -- parts under one label are one expression
      obtain rfl := hparts.eq_of_label hpart he hr' hr hlabel
      rw [remembered?_remember_self] at hy
      split at hy
      · exact Option.some.inj hy ▸ hx
      · exact h.vouches r hpart hr' y hy
    · rw [remembered?_remember_ne hlabel] at hy
      exact h.vouches r hpart hr' y hy
  other label hl := by
    rw [remembered?_remember_ne (Ne.symm (hl e he hr))]
    exact h.other label hl

end Context

/-! ### Values are amounts -/

namespace Expr.Over

open Step Context

variable {engine : Engine} {parts : Expr → Prop} {fields : List String} {row : Row} {i : Nat}
  {c c' start : Context} {x : Value} {e : Expr} {es : List Expr}

/-- The computation of amounts beside the evaluation in a row that has the cells. Only a field that does not
belong to a single view makes a difference. -/
abbrev gauging (engine : Engine) (parts : Expr → Prop) (fields : List String) (row : Row) (i : Nat)
    (start : Context) : StepRelation :=
  .simulates (fun d c => (ofRow row).Touched (fun _ => True) d ∧ Worked engine parts row i start c)
    fun _ => ¬start.Finds fields

theorem gauging_readField (hshows : start.Shows fields row i) {name : String} (hname : name ∈ fields) :
    (gauging engine parts fields row i start).rel (Step.readField name 0 false)
      (Step.readField name i false) := by
  rintro d c ⟨hd, hc⟩
  obtain ⟨x, hx, hcell⟩ := hshows name hname
  rw [readField_ofRow hx hd, readField_apply, Context.resolve]
  rw [← hc.touched.direct] at hcell
  cases hdirect : c.direct.get? name with
  | some table =>
    have hvalue : ((c.frame.view? table).map (·.value i name)).getD .null = x := by
      rw [hc.touched.frame]
      exact hcell table hdirect
    have hnoted := hc.note true
    dsimp only
    rw [hvalue]
    exact .ok x ⟨hd.note true, hnoted⟩
  | none =>
    have hnot : ¬start.Finds fields := fun h => by
      obtain ⟨table, htable⟩ := h name hname
      rw [hc.touched.direct, htable] at hdirect
      cases hdirect
    cases c.ambiguous.get? name <;> exact .excused hnot

theorem gauging_value (hparts : Family parts) (he : parts e)
    (hfree : e.AggregateFree engine.functions)
    (h : (gauging engine parts fields row i start).rel ((e.evaluator engine.recomputing).compute 0 false)
      ((e.evaluator engine).compute i false)) :
    (gauging engine parts fields row i start).rel
      ((e.evaluator engine.recomputing).value engine.recomputing 0 false)
      ((e.evaluator engine).value engine i false) := by
  rintro d c ⟨hd, hc⟩
  have hl := e.label?_evaluator engine
  have hl' := e.label?_evaluator engine.recomputing
  rw [rememberedLabel?] at hl hl'
  by_cases hr : e.isRemembered = true
  · rw [if_pos hr] at hl hl'
    have hanswers := answers_amount hfree hd
    cases hm : c.remembered? engine i e.label with
    | some x =>
      rw [hc.vouches e he hr x hm] at hanswers
      obtain ⟨d', hd', ht⟩ := hanswers.eq_ok
      rw [hd', Evaluator.value_of_remembered hl hm]
      exact .ok x ⟨ht, hc⟩
    | none =>
      have hvalue : (e.evaluator engine.recomputing).value engine.recomputing 0 false d =
          (e.evaluator engine.recomputing).compute 0 false d := by
        rw [Evaluator.value_of_not_remembered hl' (remembered?_ofRow hd e.label)]
        cases (e.evaluator engine.recomputing).compute 0 false d <;> rfl
      have hamount : ∀ x d', (e.evaluator engine.recomputing).compute 0 false d = .ok x d' →
          e.amount engine row = .ok x := fun x d' hx =>
        hanswers.runIn.symm.trans (runIn_eq_ok.mpr ⟨d', hvalue.trans hx⟩)
      rw [hvalue, Evaluator.value_of_not_remembered hl hm]
      have hcompute := h ⟨hd, hc⟩
      generalize (e.evaluator engine.recomputing).compute 0 false d = r at hcompute hamount ⊢
      generalize (e.evaluator engine).compute i false c = r' at hcompute ⊢
      cases hcompute with
      | ok x h => exact .ok x ⟨h.1, h.2.remember hparts he hr (hamount x _ rfl)⟩
      | error e => exact .error e
      | excused h => exact .excused h
  · rw [if_neg hr] at hl hl'
    rw [Evaluator.value_of_label?_eq_none hl, Evaluator.value_of_label?_eq_none hl']
    exact h ⟨hd, hc⟩

/-- What a part comes to in a row that has the cells is its amount. -/
theorem gauges (hparts : Family parts) (hshows : start.Shows fields row i)
    (he : e.Over engine.functions fields) (hpart : parts e) :
    (gauging engine parts fields row i start).Relates engine.recomputing engine 0 i false false e := by
  induction e using operands_induction with
  | step e ih =>
  have hoperands := fun p hp => ih p hp (he.operand hp) (hparts.operand hpart hp)
  have hcompute : (gauging engine parts fields row i start).rel
      ((e.evaluator engine.recomputing).compute 0 false) ((e.evaluator engine).compute i false) := by
    cases he with
    | field hname =>
      rw [evaluator, evaluator]
      exact gauging_readField hshows hname
    | composed hcomposed _ => exact StepRelation.compute _ hcomposed hoperands
    | @call _ callee hcallee hnot _ =>
      -- over the cells of a row no aggregate is called, so the function is computed from its arguments
      have haggregate : ∀ h, engine.functions.find? callee ≠ some (.aggregate h) := fun h hfind => by
        simp [Registry.isAggregate, hfind] at hnot
      cases e with
      | call name q arguments =>
        cases hcallee
        rw [evaluator, evaluator]
        refine StepRelation.call (gauging engine parts fields row i start) rfl
          (fun _ _ _ _ _ => trivial) (fun _ _ => ?_) fun h hfind => absurd hfind (haggregate h)
        exact StepRelation.values _ fun p hp => (hoperands p hp).value
      | callStar name =>
        cases hcallee
        rw [evaluator, evaluator]
        refine @StepRelation.call (gauging engine parts fields row i start) engine.recomputing engine
          callee none 0 i false false (fun _ _ => pure [Value.ofNat 1]) (fun _ _ => pure [Value.ofNat 1])
          rfl (fun _ _ _ _ _ => trivial) (fun _ _ => ?_) fun h hfind => absurd hfind (haggregate h)
        exact StepRelation.pure _ _
      | _ => cases hcallee
  exact ⟨hcompute, gauging_value hparts hpart he.aggregateFree hcompute⟩

/-- The value of a part is its amount. -/
theorem of_value (hparts : Family parts) (he : e.Over engine.functions fields) (hpart : parts e)
    (hshows : c.Shows fields row i) (hvouches : c.Vouches engine parts row i)
    (h : (e.evaluator engine).value engine i false c = .ok x c') :
    e.amount engine row = .ok x ∧ Worked engine parts row i c c' := by
  have hagree := (gauges hparts hshows he hpart).value ⟨.refl _ (ofRow row), .refl hvouches⟩
  rw [h] at hagree
  generalize hamount : (e.evaluator engine.recomputing).value engine.recomputing 0 false (ofRow row) = r
    at hagree
  cases hagree with
  | ok _ hrelated => exact ⟨runIn_eq_ok.mpr ⟨_, hamount⟩, hrelated.2⟩

/-- There is a value if there is an amount. -/
theorem exists_value (hparts : Family parts) (he : e.Over engine.functions fields) (hpart : parts e)
    (hshows : c.Shows fields row i) (hfinds : c.Finds fields) (hvouches : c.Vouches engine parts row i)
    (h : e.amount engine row = .ok x) :
    ∃ c', (e.evaluator engine).value engine i false c = .ok x c' ∧ Worked engine parts row i c c' := by
  have hagree := (gauges hparts hshows he hpart).value ⟨.refl _ (ofRow row), .refl hvouches⟩
  obtain ⟨d, hamount⟩ := runIn_eq_ok.mp h
  rw [show (e.evaluator engine.recomputing).value engine.recomputing 0 false (ofRow row) = .ok x d from
    hamount] at hagree
  generalize (e.evaluator engine).value engine i false c = r at hagree ⊢
  cases hagree with
  | ok _ hrelated => exact ⟨_, rfl, hrelated.2⟩
  | excused hnot => exact absurd hfinds hnot

/-- The values of parts are their amounts. -/
theorem of_values (hparts : Family parts) (hes : ∀ e ∈ es, e.Over engine.functions fields ∧ parts e)
    (hshows : c.Shows fields row i) (hvouches : c.Vouches engine parts row i) {xs : List Value}
    (h : Evaluator.values engine (evaluators engine es) i false c = .ok xs c') :
    es.mapM (amount engine row) = .ok xs ∧ Worked engine parts row i c c' := by
  induction es generalizing c xs with
  | nil =>
    obtain ⟨rfl, rfl⟩ := exists_of_values_nil h
    exact ⟨rfl, .refl hvouches⟩
  | cons e es ih =>
    obtain ⟨x, d, ys, hx, hys, rfl⟩ := exists_of_values_cons h
    obtain ⟨he, hpart⟩ := hes e List.mem_cons_self
    obtain ⟨hamount, hworked⟩ := of_value hparts he hpart hshows hvouches hx
    obtain ⟨hamounts, hworked'⟩ := ih (fun e' he' => hes e' (List.mem_cons_of_mem e he'))
      (hshows.touched hworked.touched) hworked.vouches hys
    rw [List.mapM_cons, hamount, hamounts]
    exact ⟨rfl, hworked.trans hworked'⟩

/-- There are values if there are amounts. -/
theorem exists_values (hparts : Family parts) (hes : ∀ e ∈ es, e.Over engine.functions fields ∧ parts e)
    (hshows : c.Shows fields row i) (hfinds : c.Finds fields) (hvouches : c.Vouches engine parts row i)
    {xs : List Value} (h : es.mapM (amount engine row) = .ok xs) :
    ∃ c', Evaluator.values engine (evaluators engine es) i false c = .ok xs c' ∧
      Worked engine parts row i c c' := by
  induction es generalizing c xs with
  | nil =>
    cases h
    exact ⟨c, rfl, .refl hvouches⟩
  | cons e es ih =>
    obtain ⟨he, hpart⟩ := hes e List.mem_cons_self
    obtain ⟨x, ys, hamount, hamounts, rfl⟩ := mapM_cons_eq_ok h
    obtain ⟨d, hx, hworked⟩ := exists_value hparts he hpart hshows hfinds hvouches hamount
    obtain ⟨c', hys, hworked'⟩ := ih (fun e' he' => hes e' (List.mem_cons_of_mem e he'))
      (hshows.touched hworked.touched) (hfinds.touched hworked.touched) hworked.vouches hamounts
    refine ⟨c', ?_, hworked.trans hworked'⟩
    rw [evaluators, Evaluator.values, List.mapM_cons, bind_of_ok hx]
    exact bind_of_ok hys

end Expr.Over

end TableQuery
