/-
Aggregates do not mix with plain columns.

Without groups by keys an aggregate turns all rows into one group, which has no columns, and it is not
allowed to do so once a column was read. So a list of what is selected that needs both a column and an
aggregate has no values, in whatever order they stand. A value that is remembered is not computed
again, though, and what it was computed from goes unnoticed: the list has to be free of values that
were remembered before, and of expressions that share a label with what reads a column or calls an
aggregate without doing so.

* `Expr.Needs` — expressions whose value takes that of a certain expression;
* `Context.Alert` — what is remembered about the first row has been noticed;
* `Step.ensures_of_needs` — a value that takes a column, or an aggregate, leaves its mark;
* `Statement.execute_mixing` — the result of a query.
-/
import TableQuery.Proofs.Recalled
import TableQuery.Proofs.WholeGroup

namespace TableQuery

/-! ### Expressions that need others -/

namespace Expr

/-- There is no value without the value of an expression that satisfies the condition. -/
inductive Needs (target : Expr → Prop) : Expr → Prop
  | self {e : Expr} : target e → Needs target e
  | left {op : BinaryOperator} {l r : Expr} : Needs target l → Needs target (.binary op l r)
  | right {op : BinaryOperator} {l r : Expr} : Needs target r → Needs target (.binary op l r)
  | unary {op : UnaryOperator} {e : Expr} : Needs target e → Needs target (.unary op e)
  | aliased {e : Expr} {name : String} : Needs target e → Needs target (.aliased e name)
  | paren {e : Expr} : Needs target e → Needs target (.paren e)

/-- The expression is a column. -/
def IsColumn (e : Expr) : Prop :=
  (∃ name, e = .field name) ∨ ∃ table name, e = .qualified table name

/-- The expression calls an aggregate function. -/
def IsAggregate (r : Registry) (e : Expr) : Prop :=
  ∃ name, e.callee? = some name ∧ r.isAggregate name = true

end Expr

/-! ### Columns that are gone -/

namespace Context

/-- There are no columns. -/
structure Void (c : Context) : Prop where
  views : c.frame.views = []
  direct : c.direct = .empty
  ambiguous : c.ambiguous = .empty

/-- A column was read, of those that there are. -/
def Spent (c : Context) : Prop := c.sawPlainColumn = true ∧ ¬c.Void

/-- Rows are in groups only if there are no columns. -/
def Ungrouped (c : Context) : Prop := ∀ i, c.InGroup i → c.Void

theorem void_collapse (c : Context) : c.collapse.Void := by
  rw [collapse_eq]
  exact ⟨rfl, rfl, rfl⟩

theorem Void.note {c : Context} (h : c.Void) (b : Bool) : Void { c with sawPlainColumn := b } :=
  ⟨h.views, h.direct, h.ambiguous⟩

theorem Void.of_note {c : Context} {b : Bool} (h : Void { c with sawPlainColumn := b }) : c.Void :=
  ⟨h.views, h.direct, h.ambiguous⟩

theorem Ungrouped.note {c : Context} (h : c.Ungrouped) (b : Bool) :
    Ungrouped { c with sawPlainColumn := b } := fun i hi => (h i hi).note b

theorem Ungrouped.take {c : Context} (h : c.Ungrouped) (places : List Nat) {i : Nat}
    (hi : (((c.frame.take places).rows[i]?).bind (·.group)).isSome) : c.Void := by
  cases hr : (c.frame.take places).rows[i]? with
  | none =>
    rw [hr] at hi
    cases hi
  | some r =>
    rw [hr] at hi
    obtain ⟨p, -, rfl⟩ := List.mem_map.mp (List.mem_toArray.mp (Array.mem_of_getElem? hr))
    refine h p ?_
    rw [InGroup]
    cases hp : c.frame.rows[p]? with
    | none =>
      rw [hp] at hi
      cases hi
    | some r =>
      rw [hp] at hi
      exact hi

theorem Void.take {c : Context} (h : c.Void) (places : List Nat) :
    (c.frame.take places).views = [] := by
  rw [Frame.take, h.views]
  rfl

end Context

namespace Step

variable {engine : Engine}

theorem steady_void (engine : Engine) : Steady engine True Context.Void where
  note h := h.note true
  remember {c} i label v h := by
    have t := (Context.Touched.refl (fun _ => True) c).remember (i := i) trivial engine label v
    exact ⟨t.frame ▸ h.views, t.direct.trans h.direct, t.ambiguous.trans h.ambiguous⟩
  groupOf _ i := by
    intro c g d hc he
    obtain ⟨-, -, rfl⟩ | ⟨-, -, rfl⟩ := groupOf_eq_ok he
    · exact ⟨hc.views, hc.direct, hc.ambiguous⟩
    · exact c.void_collapse

theorem steady_ungrouped (engine : Engine) : Steady engine True Context.Ungrouped where
  note h := h.note true
  remember {c} i label v h := by
    intro k hk
    have t := (Context.Touched.refl (fun _ => True) c).remember (i := i) trivial engine label v
    rw [Context.InGroup, t.frame] at hk
    exact (steady_void engine).remember i label v (h k hk)
  groupOf _ i := by
    intro c g d hc he k hk
    obtain ⟨-, -, rfl⟩ | ⟨-, -, rfl⟩ := groupOf_eq_ok he
    · exact ⟨(hc k hk).views, (hc k hk).direct, (hc k hk).ambiguous⟩
    · exact c.void_collapse

/-- A column that was read stays noticed, and no aggregate turns the rows into one group then. -/
theorem steady_spent (engine : Engine) :
    Steady engine True fun c => c.Ungrouped ∧ c.Spent where
  note h := ⟨h.1.note true, rfl, fun hvoid => h.2.2 hvoid.of_note⟩
  remember {c} i label v h := by
    have t := (Context.Touched.refl (fun _ => True) c).remember (i := i) trivial engine label v
    refine ⟨(steady_ungrouped engine).remember i label v h.1, ?_, fun hvoid => h.2.2 ?_⟩
    · rw [Context.remember]
      split <;> exact h.2.1
    · exact ⟨t.frame ▸ hvoid.views, t.direct ▸ hvoid.direct, t.ambiguous ▸ hvoid.ambiguous⟩
  groupOf _ i := by
    intro c g d hc he
    obtain ⟨hin, -, -⟩ | ⟨hsaw, -, -⟩ := groupOf_eq_ok he
    · exact absurd (hc.1 i hin) hc.2.2
    · exact absurd (hsaw.symm.trans hc.2.1) Bool.false_ne_true

/-- Rows are in groups only without columns, whatever is done with them. -/
theorem lasting_ungrouped (engine : Engine) :
    Lasting engine (fun e => True ∨ e.AggregateFree engine.functions) Context.Ungrouped
      fun _ c => c.Ungrouped := by
  refine (steady_ungrouped engine).lasting (fun p h i hi => ?_) (fun places h i hi => ?_)
    (fun places h i hi => ?_) fun {c new f} h hf i hi => ?_
  · exact (h i hi).note p
  · have hvoid := h.take places hi
    exact ⟨hvoid.take places, hvoid.direct, hvoid.ambiguous⟩
  · have hvoid := h.take places hi
    exact ⟨hvoid.take places, hvoid.direct, hvoid.ambiguous⟩
  · have hgroup := congrArg (Option.bind · id) (hf.group i)
    simp only [Option.bind_map, Function.id_comp] at hgroup
    rw [Context.InGroup] at hi
    have hvoid := h i (by rw [Context.InGroup, ← hgroup]; exact hi)
    exact ⟨hf.views.trans hvoid.views, hvoid.direct, hvoid.ambiguous⟩

end Step

/-! ### What has been noticed -/

/-- Expressions that share a label agree in whether they need a column and whether they need an
aggregate. -/
structure Expr.LabelsTell (r : Registry) (parts : Expr → Prop) : Prop where
  column : ∀ {e q}, parts e → parts q → e.isRemembered = true → q.isRemembered = true →
    e.label = q.label → e.Needs Expr.IsColumn → q.Needs Expr.IsColumn
  aggregate : ∀ {e q}, parts e → parts q → e.isRemembered = true → q.isRemembered = true →
    e.label = q.label → e.Needs (Expr.IsAggregate r) → q.Needs (Expr.IsAggregate r)

namespace Context

/-- What is remembered about the first row was noticed when it was computed. -/
structure Alert (engine : Engine) (parts : Expr → Prop) (c : Context) : Prop where
  ungrouped : c.Ungrouped
  column : ∀ e, parts e → e.isRemembered = true → e.Needs Expr.IsColumn →
    c.remembered? engine 0 e.label ≠ none → c.Spent
  aggregate : ∀ e, parts e → e.isRemembered = true →
    e.Needs (Expr.IsAggregate engine.functions) → c.remembered? engine 0 e.label ≠ none → c.Void

theorem remembered?_remember {engine : Engine} {c : Context} {i row : Nat} {label other : String}
    {v : Value} (h : (c.remember engine i label v).remembered? engine row other ≠ none) :
    other = label ∨ c.remembered? engine row other ≠ none := by
  rw [remember] at h
  split at h
  · by_cases hother : other = label
    · exact .inl hother
    · refine .inr ?_
      rw [remembered?] at h ⊢
      by_cases hrow : i = row
      · rw [Array.getElem?_modify, if_pos hrow, Option.bind_map] at h
        simp only [Function.comp_def, fun m : Labelled Value => m.get?_put_ne v hother] at h
        exact h
      · rwa [Array.getElem?_modify, if_neg hrow] at h
  · exact .inr h

theorem remembered?_collapse {engine : Engine} {c : Context} {label : String}
    (h : c.collapse.remembered? engine 0 label ≠ none) : c.remembered? engine 0 label ≠ none := by
  by_cases hsize : c.size = 0
  · have hrows : c.frame.rows = #[] := Array.eq_empty_of_size_eq_zero hsize
    rw [collapse_eq, remembered?] at h
    simp [hrows] at h
  · rw [remembered?, getElem?_memo_collapse hsize, getElem?_rows_collapse, Option.bind_map] at h
    exact h

end Context

namespace Step

variable {engine : Engine} {parts : Expr → Prop}

/-- The step tells that a column or an aggregate is needed for the value of an expression. -/
structure Tells (engine : Engine) (parts : Expr → Prop) (e : Expr) (s : Step Value) : Prop where
  column : e.Needs Expr.IsColumn →
    Ensures (Context.Alert engine parts) s fun _ c => c.Ungrouped ∧ c.Spent
  aggregate : e.Needs (Expr.IsAggregate engine.functions) →
    Ensures (Context.Alert engine parts) s fun _ => Context.Void

theorem alert_note {c : Context} (h : c.Alert engine parts) :
    Context.Alert engine parts { c with sawPlainColumn := true } where
  ungrouped := h.ungrouped.note true
  column e he hr hn hm := ((steady_spent engine).note ⟨h.ungrouped, h.column e he hr hn hm⟩).2
  aggregate e he hr hn hm := (h.aggregate e he hr hn hm).note true

theorem alert_groupOf : Ensures (Context.Alert engine parts) (groupOf 0)
    fun _ => Context.Alert engine parts := by
  intro c g d hc he
  have hun : d.Ungrouped := (steady_ungrouped engine).groupOf trivial 0 hc.ungrouped he
  obtain ⟨-, -, rfl⟩ | ⟨hsaw, -, rfl⟩ := groupOf_eq_ok he
  · refine ⟨hun, fun e hp hr hn hm => ?_, fun e hp hr hn hm => ?_⟩
    · have hspent := hc.column e hp hr hn hm
      exact ⟨hspent.1, fun hvoid => hspent.2 ⟨hvoid.views, hvoid.direct, hvoid.ambiguous⟩⟩
    · have hvoid := hc.aggregate e hp hr hn hm
      exact ⟨hvoid.views, hvoid.direct, hvoid.ambiguous⟩
  · refine ⟨hun, fun e hp hr hn hm => ?_, fun _ _ _ _ _ => c.void_collapse⟩
    -- what needs a column is not remembered before one was read
    have hspent := hc.column e hp hr hn (Context.remembered?_collapse hm)
    exact absurd (hsaw.symm.trans hspent.1) Bool.false_ne_true

/-! ### Evaluation keeps notice -/

theorem spent_readField (name : String) :
    Ensures Context.Ungrouped (readField name 0 false) fun _ c => c.Ungrouped ∧ c.Spent := by
  intro c x d hc h
  obtain ⟨⟨table, hr⟩, rfl⟩ := readField_eq_ok h
  refine ⟨hc.note true, rfl, fun hvoid => ?_⟩
  rw [Context.resolve, show c.direct = _ from hvoid.direct,
    show c.ambiguous = _ from hvoid.ambiguous] at hr
  cases hr

theorem spent_readQualified (table name : String) :
    Ensures Context.Ungrouped (readQualified table name 0 false)
      fun _ c => c.Ungrouped ∧ c.Spent := by
  intro c x d hc h
  obtain ⟨hviews, rfl⟩ := readQualified_eq_ok h
  exact ⟨hc.note true, rfl, fun hvoid => hviews hvoid.views⟩

theorem void_groupOf (i : Nat) :
    Ensures Context.Ungrouped (groupOf i) fun _ => Context.Void := by
  intro c g d hc h
  obtain ⟨hin, -, rfl⟩ | ⟨-, -, rfl⟩ := groupOf_eq_ok h
  · exact ⟨(hc i hin).views, (hc i hin).direct, (hc i hin).ambiguous⟩
  · exact c.void_collapse

/-- What is remembered when a value is: the value was computed with notice. -/
theorem alert_remember {e : Expr} {c : Context} (hparts : Expr.LabelsTell engine.functions parts)
    (he : parts e) (hr : e.isRemembered = true) (hc : c.Alert engine parts)
    (hcolumn : e.Needs Expr.IsColumn → c.Spent)
    (haggregate : e.Needs (Expr.IsAggregate engine.functions) → c.Void) (v : Value) :
    (c.remember engine 0 e.label v).Alert engine parts where
  ungrouped := (steady_ungrouped engine).remember 0 _ v hc.ungrouped
  column q hq hqr hn hm := by
    have hspent : c.Spent := by
      obtain hlabel | hm := Context.remembered?_remember hm
      · exact hcolumn (hparts.column hq he hqr hr hlabel hn)
      · exact hc.column q hq hqr hn hm
    exact ((steady_spent engine).remember 0 _ v ⟨hc.ungrouped, hspent⟩).2
  aggregate q hq hqr hn hm := by
    have hvoid : c.Void := by
      obtain hlabel | hm := Context.remembered?_remember hm
      · exact haggregate (hparts.aggregate hq he hqr hr hlabel hn)
      · exact hc.aggregate q hq hqr hn hm
    exact (steady_void engine).remember 0 _ v hvoid

/-- The value of an expression keeps notice if its computation does. -/
theorem alert_value {e : Expr} (hparts : Expr.LabelsTell engine.functions parts) (he : parts e)
    (htells : Tells engine parts e ((e.evaluator engine).compute 0 false))
    (h : Ensures (Context.Alert engine parts) ((e.evaluator engine).compute 0 false)
      fun _ => Context.Alert engine parts) :
    Ensures (Context.Alert engine parts) ((e.evaluator engine).value engine 0 false)
      fun _ => Context.Alert engine parts := by
  have hall : Ensures (Context.Alert engine parts) ((e.evaluator engine).compute 0 false)
      fun _ c => c.Alert engine parts ∧ (e.Needs Expr.IsColumn → c.Spent) ∧
        (e.Needs (Expr.IsAggregate engine.functions) → c.Void) := fun c x d hc hs =>
    ⟨h hc hs, fun hn => (htells.column hn hc hs).2, fun hn => htells.aggregate hn hc hs⟩
  exact hall.value (fun hc _ _ => hc)
    (fun v hc hr => alert_remember hparts he hr hc.1 hc.2.1 hc.2.2 v) fun hc => hc.1

/-- The evaluation of parts whose computations tell what they need. -/
def alertSimulation (hparts : Expr.LabelsTell engine.functions parts) (told : Expr → Prop)
    (hoperand : ∀ {e p}, told e → p ∈ e.operands → told p) (htold : ∀ {q}, told q → parts q)
    (htells : ∀ q, told q → Tells engine parts q ((q.evaluator engine).compute 0 false)) :
    SelfSimulation engine where
  Index := Unit
  row _ := 0
  otherRow _ := 0
  inAggregate _ := false
  relation _ := .keeps (Context.Alert engine parts)
  admits := told
  operand := hoperand
  readField _ name := ⟨rfl, fun c x d hc h => by
    obtain ⟨-, rfl⟩ := readField_eq_ok h
    exact alert_note hc⟩
  readQualified _ table name := ⟨rfl, fun c x d hc h => by
    obtain ⟨-, rfl⟩ := readQualified_eq_ok h
    exact alert_note hc⟩
  readWindow _ _ _ _ _ _ := ⟨rfl, fun c x d hc h => readWindow_eq_ok h ▸ hc⟩
  call _ _ _ q _ _ _ hf := (StepRelation.keeps _).call rfl (fun _ _ _ _ _ => trivial)
    (fun _ _ => hf) fun h _ => (StepRelation.keeps _).bind ⟨rfl, alert_groupOf⟩ fun _ =>
      (StepRelation.keeps _).lift fun _ _ => trivial
  value _ q hq h := ⟨rfl, alert_value hparts (htold hq) (htells q hq) h.2⟩

/-- What comes with the value of every target comes with every value that needs one. -/
theorem ensures_of_needs {target : Expr → Prop} {P Q : Context → Prop} (S : Steady engine True Q)
    {e : Expr} (htarget : target e → Ensures P ((e.evaluator engine).compute 0 false) fun _ => Q)
    (hmemo : ∀ {c}, P c → ∀ p ∈ e.operands, p.isRemembered = true → p.Needs target →
      c.remembered? engine 0 p.label ≠ none → Q c)
    (hkeeps : ∀ p ∈ e.operands, Ensures P ((p.evaluator engine).value engine 0 false) fun _ => P)
    (hoperands : ∀ p ∈ e.operands, p.Needs target →
      Ensures P ((p.evaluator engine).compute 0 false) fun _ => Q)
    (h : e.Needs target) : Ensures P ((e.evaluator engine).compute 0 false) fun _ => Q := by
  have hvalue : ∀ p ∈ e.operands, p.Needs target →
      Ensures P ((p.evaluator engine).value engine 0 false) fun _ => Q := fun p hp hn =>
    (hoperands p hp hn).value (fun hc hr => hmemo hc p hp hr hn)
      (fun v hc _ => S.remember 0 _ v hc) fun hc => hc
  cases h with
  | self h => exact htarget h
  | @left op l r h =>
    rw [Expr.evaluator]
    refine (hvalue l (by simp [Expr.operands]) h).bind fun x => ?_
    refine (S.evaluate (e := r) (.inl trivial) 0 false).bind fun y => ?_
    exact .lift _ fun c a hc _ => hc
  | @right op l r h =>
    rw [Expr.evaluator]
    -- the left operand is computed first, and what held before it holds after it
    refine (hkeeps l (by simp [Expr.operands])).bind fun x => ?_
    refine (hvalue r (by simp [Expr.operands]) h).bind fun y => ?_
    exact .lift _ fun c a hc _ => hc
  | @unary op p h =>
    rw [Expr.evaluator]
    refine (hvalue p (by simp [Expr.operands]) h).bind fun x => ?_
    exact .lift _ fun c a hc _ => hc
  | @aliased p name h =>
    rw [Expr.evaluator]
    exact hvalue p (by simp [Expr.operands]) h
  | @paren p h =>
    rw [Expr.evaluator]
    exact hoperands p (by simp [Expr.operands]) h

/-- A column is read, and noticed. -/
theorem spent_of_isColumn {e : Expr} (h : e.IsColumn) :
    Ensures Context.Ungrouped ((e.evaluator engine).compute 0 false)
      fun _ c => c.Ungrouped ∧ c.Spent := by
  obtain ⟨name, rfl⟩ | ⟨table, name, rfl⟩ := h
  · rw [Expr.evaluator]
    exact spent_readField name
  · rw [Expr.evaluator]
    exact spent_readQualified table name

theorem ensures_call {P Q : Context → Prop} {name : String} (q : Option Quantifier)
    (f : Nat → Bool → Step (List Value)) (h : engine.functions.isAggregate name = true)
    (hgroup : Ensures P (groupOf 0) fun _ => Q) :
    Ensures P (call engine name q f 0 false) fun _ => Q := by
  rw [call]
  refine .ite (fun _ => .throw_bind _ _) fun _ => ?_
  rw [Registry.isAggregate] at h
  cases hfind : engine.functions.find? name with
  | none =>
    rw [hfind] at h
    cases h
  | some g =>
    cases g with
    | scalar g =>
      rw [hfind] at h
      cases h
    | aggregate g => exact hgroup.bind fun group => .lift _ fun _ _ hc _ => hc
    | window g =>
      rw [hfind] at h
      cases h

/-- What comes with the group of the first row comes with every aggregate. -/
theorem ensures_of_isAggregate {P Q : Context → Prop} {e : Expr}
    (h : e.IsAggregate engine.functions) (hgroup : Ensures P (groupOf 0) fun _ => Q) :
    Ensures P ((e.evaluator engine).compute 0 false) fun _ => Q := by
  obtain ⟨name, hname, h⟩ := h
  cases e with
  | call name' q arguments =>
    cases hname
    rw [Expr.evaluator]
    exact ensures_call q _ h hgroup
  | callStar name' =>
    cases hname
    rw [Expr.evaluator]
    exact ensures_call none (fun _ _ => Pure.pure [Value.ofNat 1]) h hgroup
  | _ => cases hname

/-- Values keep notice when the computations of all that is evaluated for them tell what they need. -/
theorem alert_value_of_tells (hparts : Expr.LabelsTell engine.functions parts) {e : Expr}
    (h : ∀ q, q.Within e → parts q ∧ Tells engine parts q ((q.evaluator engine).compute 0 false)) :
    Ensures (Context.Alert engine parts) ((e.evaluator engine).value engine 0 false)
      fun _ => Context.Alert engine parts :=
  ((alertSimulation hparts (·.Within e) (fun hq hp => (Expr.Within.operand hp (.self _)).trans hq)
    (fun hq => (h _ hq).1) fun q hq => (h q hq).2).evaluate (.self e) ()).2

/-- Computations tell what they need, for all that is evaluated. -/
theorem tells (hparts : Expr.LabelsTell engine.functions parts) (e : Expr) :
    (∀ q, q.Within e → parts q) →
      ∀ q, q.Within e → Tells engine parts q ((q.evaluator engine).compute 0 false) := by
  induction e using Expr.operands_induction with
  | step e ih =>
    intro he
    have hpart : ∀ p ∈ e.operands, ∀ q, q.Within p → parts q :=
      fun p hp q hq => he q (.operand hp hq)
    have hself : ∀ p ∈ e.operands, Tells engine parts p ((p.evaluator engine).compute 0 false) :=
      fun p hp => ih p hp (hpart p hp) p (.self p)
    have hkeeps : ∀ p ∈ e.operands, Ensures (Context.Alert engine parts)
        ((p.evaluator engine).value engine 0 false) fun _ => Context.Alert engine parts :=
      fun p hp => alert_value_of_tells hparts fun q hq =>
        ⟨hpart p hp q hq, ih p hp (hpart p hp) q hq⟩
    have hoperand : ∀ p ∈ e.operands, parts p := fun p hp => hpart p hp p (.self p)
    intro q hq
    cases hq with
    | operand hp hq => exact ih _ hp (hpart _ hp) q hq
    | self =>
      constructor
      · refine ensures_of_needs (steady_spent engine) ?_ ?_ hkeeps fun p hp => (hself p hp).column
        · exact fun hp => (spent_of_isColumn hp).mono (fun c hc => hc.ungrouped) fun _ _ h => h
        · exact fun hc p hp hr hn hm => ⟨hc.ungrouped, hc.column p (hoperand p hp) hr hn hm⟩
      · refine ensures_of_needs (steady_void engine) ?_ ?_ hkeeps fun p hp => (hself p hp).aggregate
        · exact fun hp => (ensures_of_isAggregate hp (void_groupOf 0)).mono (fun c hc => hc.ungrouped)
            fun _ _ h => h
        · exact fun hc p hp hr hn hm => hc.aggregate p (hoperand p hp) hr hn hm

/-- What one of several values comes with is there in the end. -/
theorem ensures_values {P Q : Context → Prop} (S : Steady engine True Q) {es : List Expr}
    (hkeeps : ∀ e ∈ es, Ensures P ((e.evaluator engine).value engine 0 false) fun _ => P)
    (h : ∃ e ∈ es, Ensures P ((e.evaluator engine).value engine 0 false) fun _ => Q) :
    Ensures P (Evaluator.values engine (Expr.evaluators engine es) 0 false) fun _ => Q := by
  induction es with
  | nil =>
    obtain ⟨e, he, -⟩ := h
    cases he
  | cons e es ih =>
    rw [Evaluator.values, Expr.evaluators, List.mapM_cons]
    obtain ⟨e', he, h⟩ := h
    rcases List.mem_cons.mp he with rfl | he
    · refine h.bind fun x => ?_
      refine Ensures.bind (Q := fun _ => Q) (S.values (fun _ _ => .inl trivial) 0 false) fun xs => ?_
      exact .pure _ fun _ hc => hc
    · refine (hkeeps e List.mem_cons_self).bind fun x => ?_
      refine (ih (fun e he => hkeeps e (List.mem_cons_of_mem _ he)) ⟨e', he, h⟩).bind fun xs => ?_
      exact .pure _ fun _ hc => hc

/-- A list that needs both a column and an aggregate has no values. -/
theorem values_ne_ok {es : List Expr} {c d : Context} {vs : List Value}
    (hlabels : Expr.LabelsTell engine.functions fun q => ∃ e ∈ es, q.Within e)
    (hcolumn : ∃ e ∈ es, e.Needs Expr.IsColumn)
    (haggregate : ∃ e ∈ es, e.Needs (Expr.IsAggregate engine.functions))
    (hc : c.Alert engine fun q => ∃ e ∈ es, q.Within e) :
    Evaluator.values engine (Expr.evaluators engine es) 0 false c ≠ .ok vs d := by
  intro hvalues
  have htells := fun e (he : e ∈ es) => tells hlabels e fun q hq => ⟨e, he, hq⟩
  have hkeeps := fun e (he : e ∈ es) => alert_value_of_tells hlabels
    fun q hq => ⟨⟨e, he, hq⟩, htells e he q hq⟩
  have hspent : d.Ungrouped ∧ d.Spent := by
    obtain ⟨e, he, hn⟩ := hcolumn
    refine ensures_values (steady_spent engine) hkeeps ⟨e, he, ?_⟩ hc hvalues
    exact ((htells e he e (.self e)).column hn).value
      (fun hc hr hm => ⟨hc.ungrouped, hc.column e ⟨e, he, .self e⟩ hr hn hm⟩)
      (fun v hc _ => (steady_spent engine).remember 0 _ v hc) fun hc => hc
  have hvoid : d.Void := by
    obtain ⟨e, he, hn⟩ := haggregate
    refine ensures_values (steady_void engine) hkeeps ⟨e, he, ?_⟩ hc hvalues
    exact ((htells e he e (.self e)).aggregate hn).value
      (fun hc hr hm => hc.aggregate e ⟨e, he, .self e⟩ hr hn hm)
      (fun v hc _ => (steady_void engine).remember 0 _ v hc) fun hc => hc
  exact hspent.2.2 hvoid

end Step

/-! ### The result of a query -/

namespace Step

variable {engine : Engine} {exprs : List Expr} {names : List String} {c : Context}

theorem Lasting.prepare {admits : Expr → Prop} {I : Context → Prop} {J : Nat → Context → Prop}
    (L : Lasting engine admits I J) {clauses : Clauses} (hgroups : clauses.groupBy = [])
    (hadmits : ∀ e, admits e) : Ensures I (prepare engine clauses) fun _ => I := by
  rw [Step.prepare, hgroups]
  refine (Ensures.forM_option _ fun e _ => L.filter (hadmits e)).bind fun _ => ?_
  exact .forM_option _ fun e _ => L.filter (hadmits e)

/-- The rows to select from: those that there are, or the one that stands in for them. -/
def atLeastOne (c : Context) : Context := if c.size = 0 then standIn c else c

theorem ungrouped_atLeastOne (h : c.Ungrouped) (hmarks : c.emptyGroup = none) :
    (atLeastOne c).Ungrouped := by
  rw [atLeastOne]
  split
  · intro i hi
    rw [Context.InGroup] at hi
    match i with
    | 0 =>
      have hgroup : c.emptyGroup.isSome = true := hi
      rw [hmarks] at hgroup
      cases hgroup
    | i + 1 => cases hi
  · exact h

theorem recalls_atLeastOne {known : String → Prop} (h : c.Recalls known) :
    (atLeastOne c).Recalls known := by
  rw [atLeastOne]
  split
  · refine .of_forgotten rfl ?_
    rintro (_ | i) label <;> rfl
  · exact h

theorem size_atLeastOne (c : Context) : (atLeastOne c).size ≠ 0 := by
  rw [atLeastOne]
  split
  · rw [size_standIn]
    exact Nat.one_ne_zero
  · assumption

/-- There is no result without what is selected in the first row. -/
theorem project_error {e : ExecutionError} (hgrouped : c.grouped = false)
    (h : (selectedRow engine exprs names 0).runIn (atLeastOne c) = .error e) :
    (project engine exprs names).runIn c = .error e := by
  obtain ⟨d, hrow⟩ := runIn_eq_error.mp h
  obtain ⟨n, hn⟩ := Nat.exists_eq_succ_of_ne_zero (size_atLeastOne c)
  have hrows : rows (selectedRow engine exprs names) (atLeastOne c) = .error e d := by
    rw [rows, get_bind, hn, rowsAfter, get_bind, hn]
    simp only [Array.size_empty, Nat.zero_lt_succ, if_true]
    exact bind_of_error hrow
  have hproject : project engine exprs names c = .error e d := by
    rw [project, get_bind, if_neg fun h => by rw [hgrouped] at h; cases h.2.1]
    rw [atLeastOne] at hrows
    -- without rows it is the row of Null that fails
    by_cases hc : c.size = 0
    · rw [if_pos hc] at hrows
      simp only [hc, if_true]
      show (rows (selectedRow engine exprs names) >>= _) (standIn c) = _
      exact bind_of_error hrows
    · rw [if_neg hc] at hrows
      simp only [hc, if_false]
      exact bind_of_error hrows
  rw [runIn, EStateM.run, hproject]

end Step

namespace Statement

open Step

variable {engine : Engine} {tables : Tables} {source : Source} {clauses : Clauses}

/-- The order in which rows are put before they are selected. Distinct rows are put in order
afterwards. -/
def firstOrder (clauses : Clauses) : List OrderItem :=
  if clauses.quantifier.isSome then [] else clauses.orderBy

/-- The limit of rows before they are selected. -/
def firstLimit (clauses : Clauses) : Option Limit :=
  if clauses.quantifier.isSome then none else clauses.limit

/-- The rows that a query selects from, with what it selects under which names. -/
def selection (engine : Engine) (tables : Tables) (source : Source) (clauses : Clauses) :
    Step (List Expr × List String) := do
  discard (loadSource engine tables source)
  prepare engine clauses
  let selected ← ordered engine clauses.items (firstOrder clauses)
  (firstLimit clauses).forM limit
  modify atLeastOne
  return selected

/-- The contexts on the way to the rows that a query without groups selects from. -/
theorem exists_of_selection_eq_ok {exprs : List Expr} {names : List String} {c : Context}
    (hgroups : clauses.groupBy = [])
    (h : selection engine tables source clauses {} = .ok (exprs, names) c) :
    ∃ aliases s p o l, loadSource engine tables source {} = .ok aliases s ∧
      prepare engine clauses s = .ok () p ∧
      ordered engine clauses.items (firstOrder clauses) p = .ok (exprs, names) o ∧
      (firstLimit clauses).forM limit o = .ok () l ∧ c = atLeastOne l ∧ p.Loaded ∧
      l.marks = (false, false, none) := by
  rw [selection] at h
  obtain ⟨⟨⟩, s, hs, h⟩ := exists_of_bind_eq_ok h
  obtain ⟨aliases, s', hload, hs⟩ := exists_of_bind_eq_ok hs
  cases hs
  obtain ⟨⟨⟩, p, hprepare, h⟩ := exists_of_bind_eq_ok h
  obtain ⟨⟨exprs', names'⟩, o, hordered, h⟩ := exists_of_bind_eq_ok h
  obtain ⟨⟨⟩, l, hlimit, h⟩ := exists_of_bind_eq_ok h
  cases h
  have hloaded : p.Loaded := loaded_prepare hgroups (loaded_loadSource engine tables source rfl hload)
    hprepare
  refine ⟨aliases, s, p, o, l, hload, hprepare, hordered, hlimit, rfl, hloaded, ?_⟩
  have L := lasting_marks engine (false, false, none)
  have ho : o.marks = (false, false, none) :=
    (marks_arranged (ordered_eq_ok.mp hordered).2.2).trans hloaded.marks
  exact Ensures.forM_option (I := (·.marks = (false, false, none))) _ (fun b _ => L.limit b) ho hlimit

/-- A query has an error if what it selects in its first row has one. -/
theorem execute_of_selection {exprs : List Expr} {names : List String} {c : Context}
    {e : ExecutionError} (hgroups : clauses.groupBy = []) (hquantifier : clauses.quantifier ≠ some .all)
    (h : selection engine tables source clauses {} = .ok (exprs, names) c)
    (he : (selectedRow engine exprs names 0).runIn c = .error e) :
    execute engine tables (.select source clauses) = .error e := by
  obtain ⟨aliases, s, p, o, l, hload, hprepare, hordered, hlimit, rfl, -, hmarks⟩ :=
    exists_of_selection_eq_ok hgroups h
  have hall : (selectAll engine clauses.items (firstOrder clauses) (firstLimit clauses)).runIn p =
      .error e := by
    rw [selectAll_eq, runIn_bind_of_ok hordered, runIn_bind_of_ok hlimit]
    exact project_error (congrArg (·.1) hmarks) he
  rw [execute_of_prepared hload hprepare]
  cases hq : clauses.quantifier with
  | none =>
    rw [firstOrder, firstLimit, hq] at hall
    exact hall
  | some q =>
    cases q with
    | all => exact absurd hq hquantifier
    | distinct =>
      rw [firstOrder, firstLimit, hq] at hall
      obtain ⟨d, hd⟩ := runIn_eq_error.mp hall
      exact runIn_bind_of_error hd

/-- The rows that a query without groups selects from are not grouped as long as they have columns,
and values are remembered for what they are in order by. -/
theorem ungrouped_selection {exprs : List Expr} {names : List String} {c : Context}
    (hgroups : clauses.groupBy = [])
    (h : selection engine tables source clauses {} = .ok (exprs, names) c) :
    c.Ungrouped ∧ ∀ label, c.remembered? engine 0 label ≠ none →
      OrderLabel exprs (firstOrder clauses) label := by
  obtain ⟨aliases, s, p, o, l, hload, hprepare, hordered, hlimit, rfl, hloaded, hmarks⟩ :=
    exists_of_selection_eq_ok hgroups h
  have hbare : s.Bare := bare_loadSource engine tables source rfl hload
  have harranged := (ordered_eq_ok.mp hordered).2.2
  constructor
  · have L := lasting_ungrouped engine
    have hs : s.Ungrouped := fun i hi => absurd hi (hbare.not_inGroup i)
    have hp : p.Ungrouped := L.prepare hgroups (fun _ => .inl trivial) hs hprepare
    have ho : o.Ungrouped := L.arranged (fun _ _ => admitted_aggregates)
      (fun _ _ => admitted_aggregates) hp harranged
    have hl : l.Ungrouped := Ensures.forM_option (I := Context.Ungrouped) _ (fun b _ => L.limit b) ho
      hlimit
    exact ungrouped_atLeastOne hl (congrArg (·.2.2) hmarks)
  · intro label hm
    have L := lasting_recalls engine (OrderLabel exprs (firstOrder clauses))
    have hs : s.Recalls fun _ => True := ⟨fun _ _ _ => trivial, fun i label => hbare.state rfl i⟩
    have hp : p.Recalls fun _ => True := (lasting_recalls engine fun _ => True).prepare hgroups
      (fun _ _ _ _ => trivial) hs hprepare
    have ho : o.Recalls (OrderLabel exprs (firstOrder clauses)) :=
      recalls_arranged (fun e he r hr hremembered => ⟨e, he, r, hr, hremembered, rfl⟩)
        (.of_forgotten hloaded.forgotten hp.keys) harranged
    have hl : l.Recalls (OrderLabel exprs (firstOrder clauses)) :=
      Ensures.forM_option (I := Context.Recalls _) _ (fun b _ => L.limit b) ho hlimit
    exact (recalls_atLeastOne hl).remembered? hm

/-- A query without groups whose list needs both a column and an aggregate is rejected, whatever its
other clauses are, as long as what needs them is not put in order by already: no other error stands
in the way, and expressions with equal labels agree in what they need. -/
theorem execute_mixing {exprs : List Expr} {names : List String} {c : Context}
    (hgroups : clauses.groupBy = []) (hquantifier : clauses.quantifier ≠ some .all)
    (hselection : selection engine tables source clauses {} = .ok (exprs, names) c)
    (hcolumn : ∃ e ∈ exprs, e.Needs Expr.IsColumn)
    (haggregate : ∃ e ∈ exprs, e.Needs (Expr.IsAggregate engine.functions))
    (hlabels : Expr.LabelsTell engine.functions fun q => ∃ e ∈ exprs, q.Within e)
    (hfresh : ∀ e ∈ exprs, ∀ q : Expr, q.Within e → q.isRemembered = true →
      q.Needs Expr.IsColumn ∨ q.Needs (Expr.IsAggregate engine.functions) →
        ¬OrderLabel exprs (firstOrder clauses) q.label)
    (hothers : ∀ e, (selectedRow engine exprs names 0).runIn c = .error e → e = .mixedAggregate) :
    execute engine tables (.select source clauses) = .error .mixedAggregate := by
  obtain ⟨hungrouped, hreused⟩ := ungrouped_selection hgroups hselection
  have halert : c.Alert engine fun q => ∃ e ∈ exprs, q.Within e := by
    refine ⟨hungrouped, ?_, ?_⟩
    · exact fun q ⟨e, he, hq⟩ hr hn hm => absurd (hreused q.label hm) (hfresh e he q hq hr (.inl hn))
    · exact fun q ⟨e, he, hq⟩ hr hn hm => absurd (hreused q.label hm) (hfresh e he q hq hr (.inr hn))
  refine execute_of_selection hgroups hquantifier hselection ?_
  cases hrow : (selectedRow engine exprs names 0).runIn c with
  | error e => rw [hothers e hrow]
  | ok row =>
    obtain ⟨d, hrow⟩ := runIn_eq_ok.mp hrow
    rw [selectedRow] at hrow
    obtain ⟨values, d', hvalues, -⟩ := exists_of_bind_eq_ok hrow
    exact absurd hvalues (values_ne_ok hlabels hcolumn haggregate halert)

/-- Numbers greater than one, beside how many there are. -/
def counted : Clauses := { selecting [.expr (.field "x"), .expr (.callStar "count")] with
  condition := some (.binary .gt (.field "x") Expr.one) }

theorem execute_mixing_counted : execute .builtin numbers (.select (.factor (.table "t" none)) counted) =
    .error .mixedAggregate := by
  have hpart : ∀ {q e : Expr}, e ∈ [Expr.field "x", .callStar "count"] → q.Within e → q = e := by
    rintro q e he (_ | ⟨hp, -⟩)
    · rfl
    · obtain rfl | rfl := List.mem_pair.mp he <;> simp [Expr.operands] at hp
  have hremembered : ∀ {q e : Expr}, e ∈ [Expr.field "x", .callStar "count"] → q.Within e →
      q.isRemembered = true → q = .callStar "count" := by
    intro q e he hq hr
    obtain rfl := hpart he hq
    obtain rfl | rfl := List.mem_pair.mp he
    · cases hr
    · rfl
  have horder : ∀ label, ¬OrderLabel [Expr.field "x", .callStar "count"] [] label := by
    rintro label ⟨e, ⟨item, hitem, -⟩ | ⟨w, hw | ⟨item, hitem, -⟩, he⟩, -⟩
    · cases hitem
    · obtain rfl | rfl := List.mem_pair.mp hw <;> simp [Expr.partition] at he
    · cases hitem
  obtain ⟨c, h, hrow⟩ : ∃ c, selection .builtin numbers (.factor (.table "t" none)) counted {} =
        .ok ([.field "x", .callStar "count"], ["x", "count(*)"]) c ∧
      (selectedRow .builtin [.field "x", .callStar "count"] ["x", "count(*)"] 0).runIn c =
        .error .mixedAggregate := ⟨_, rfl, rfl⟩
  refine execute_mixing rfl (by decide) h ⟨_, List.mem_cons_self .., .self (.inl ⟨"x", rfl⟩)⟩
    ⟨.callStar "count", by simp, .self ⟨"count", rfl, by decide⟩⟩ ⟨?_, ?_⟩ ?_ ?_
  · rintro e q ⟨e', he', he⟩ ⟨q', hq', hq⟩ her hqr - hn
    rwa [hremembered hq' hq hqr, ← hremembered he' he her]
  · rintro e q ⟨e', he', he⟩ ⟨q', hq', hq⟩ her hqr - hn
    rwa [hremembered hq' hq hqr, ← hremembered he' he her]
  · exact fun _ _ q _ _ _ => horder q.label
  · exact fun e he => Except.error.inj (he.symm.trans hrow)

/-- A sum that rows are in order by is not computed again, so that the column in it goes unnoticed. -/
theorem not_forall_execute_mixing : ¬ ∀ (tables : Tables) (source : Source) (clauses : Clauses)
    (exprs : List Expr) (names : List String) (c : Context),
    clauses.groupBy = [] → clauses.quantifier ≠ some .all →
    (∀ e ∈ clauses.condition, e.AggregateFree Engine.builtin.functions) →
    (∀ item ∈ clauses.orderBy, item.expr.AggregateFree Engine.builtin.functions) →
    selection .builtin tables source clauses {} = .ok (exprs, names) c →
    (∃ e ∈ exprs, e.Needs Expr.IsColumn) →
    (∃ e ∈ exprs, e.Needs (Expr.IsAggregate Engine.builtin.functions)) →
    (∀ e, (selectedRow .builtin exprs names 0).runIn c = .error e → e = .mixedAggregate) →
    execute .builtin tables (.select source clauses) = .error .mixedAggregate := by
  intro hall
  let sum : Expr := .binary .add (.field "x") Expr.one
  let exprs : List Expr := [.aliased sum "a", .aliased (.callStar "count") "n"]
  let clauses : Clauses := { selecting (exprs.map .expr) with orderBy := [.mk sum .ascending] }
  have hfree : sum.AggregateFree Engine.builtin.functions := .binary _ (.of_field _ _) (.of_literal _ _)
  obtain ⟨s, hload, key, d, hkey, hone, hd⟩ : ∃ s,
      loadSource .builtin number (.factor (.table "t" none)) {} = .ok ["t"] s ∧ ∃ key d,
      Evaluator.values .builtin (Expr.evaluators .builtin
        ((clauses.orderBy.map (s.orderItem exprs)).map OrderItem.expr)) 0 false s = .ok key d ∧
      s.size = 1 ∧ (match selectedRow .builtin exprs ["a", "n"] 0 { d with sawPlainColumn := false } with
        | .ok _ e => d.size == 1 && e.size == 1 && !e.sourceEmpty
        | .error .. => false) = true :=
    ⟨_, rfl, _, _, rfl, rfl, by decide +kernel⟩
  cases hrow : selectedRow .builtin exprs ["a", "n"] 0 { d with sawPlainColumn := false } with
  | error e' e =>
    rw [hrow] at hd
    cases hd
  | ok row e =>
    rw [hrow] at hd
    simp only [Bool.and_eq_true, beq_iff_eq, Bool.not_eq_true'] at hd
    have hexprs : ∀ e ∈ exprs, e.window? = none := by
      intro e he
      obtain rfl | rfl := List.mem_pair.mp he <;> rfl
    have hcolumns : columnNames exprs = .ok ["a", "n"] := rfl
    obtain ⟨hordered, hselect⟩ := selectAll_of_one (loaded_loadSource _ _ _ rfl hload).aligned hone
      hexprs (fun item hitem => List.mem_singleton.mp hitem ▸ rfl) (List.cons_ne_nil _ _) hcolumns hkey
      hrow hd.1.1 hd.1.2 hd.2
    replace hordered : ordered .builtin clauses.items clauses.orderBy s = _ := hordered
    have hselection : selection .builtin number (.factor (.table "t" none)) clauses {} =
        .ok (exprs, ["a", "n"]) { d with sawPlainColumn := false } := by
      have hsize : ({ d with sawPlainColumn := false } : Context).size ≠ 0 := by
        show d.size ≠ 0
        omega
      rw [selection, bind_of_ok (discard_of_ok hload)]
      show (ordered .builtin clauses.items clauses.orderBy >>= _) s = _
      rw [bind_of_ok hordered]
      show EStateM.Result.ok _ (atLeastOne _) = _
      rw [atLeastOne, if_neg hsize]
    have hmixed := hall _ _ clauses exprs _ _ rfl (by decide) (fun e he => by cases he)
      (fun item hitem => List.mem_singleton.mp hitem ▸ hfree) hselection
      ⟨_, List.mem_cons_self .., .aliased (.left (.self (.inl ⟨"x", rfl⟩)))⟩
      ⟨.aliased (.callStar "count") "n", by simp [exprs], .aliased (.self ⟨"count", rfl, by decide⟩)⟩
      fun e' he' => by
        obtain ⟨_, he'⟩ := runIn_eq_error.mp he'
        rw [hrow] at he'
        cases he'
    have hexecute : execute .builtin number (.select (.factor (.table "t" none)) clauses) =
        .ok ⟨["a", "n"], #[row]⟩ := by
      rw [execute_of_prepared hload rfl]
      exact runIn_eq_ok.mpr ⟨_, hselect⟩
    rw [hexecute] at hmixed
    cases hmixed

end Statement

end TableQuery
