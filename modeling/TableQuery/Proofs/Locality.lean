/-
Evaluation looks at one row.

What an expression comes to in a row depends on that row alone, unless it calls an aggregate that
would turn all rows into one group. A `RowRelation` is a relation between contexts that is kept by a
look at a row, and every evaluation keeps it (`RowRelation.evaluate`).

* `Local` — an action that answers in every row as it would at the beginning, whatever has been done
  in the others, and of which only what is remembered about its row remains;
* `local_values`, `local_holds` — evaluation is local;
* `Local.rows`, `Answers.mapM_touched` — what a loop of such actions answers.
-/
import TableQuery.Function.Window
import TableQuery.Proofs.Answers
import TableQuery.Proofs.SameRow
import TableQuery.Proofs.Simulation

namespace TableQuery

/-- The name stands for an aggregate function. -/
def Registry.isAggregate (r : Registry) (name : String) : Bool :=
  match r.find? name with
  | some (.aggregate _) => true
  | _ => false

/-- Queries with the functions of the library. -/
def Engine.builtin : Engine := { functions := .builtin }

/-- No aggregate function is called, except in windows. -/
inductive Expr.AggregateFree (r : Registry) : Expr → Prop
  | intro {e : Expr} : (∀ name, e.callee? = some name → r.isAggregate name = false) →
      (∀ p ∈ e.operands, AggregateFree r p) → AggregateFree r e

theorem Expr.AggregateFree.operand {r : Registry} {e p : Expr} (h : e.AggregateFree r)
    (hp : p ∈ e.operands) : p.AggregateFree r := by
  cases h with
  | intro _ hoperands => exact hoperands p hp

theorem Expr.AggregateFree.of_field (r : Registry) (name : String) :
    AggregateFree r (.field name) :=
  .intro (fun name h => by cases h) fun p hp => by cases hp

theorem Expr.AggregateFree.of_qualified (r : Registry) (table name : String) :
    AggregateFree r (.qualified table name) :=
  .intro (fun name h => by cases h) fun p hp => by cases hp

theorem Expr.AggregateFree.of_literal (r : Registry) (v : Value) : AggregateFree r (.literal v) :=
  .intro (fun name h => by cases h) fun p hp => by cases hp

theorem Expr.AggregateFree.binary {r : Registry} {left right : Expr} (op : BinaryOperator)
    (hl : left.AggregateFree r) (hr : right.AggregateFree r) :
    AggregateFree r (.binary op left right) := by
  refine .intro (fun name h => by cases h) fun p hp => ?_
  obtain rfl | hp := List.mem_cons.mp hp
  · exact hl
  · exact List.mem_singleton.mp hp ▸ hr

/-- A list that has all operands of its members is free of aggregates if none of them is called by
name. -/
theorem Expr.AggregateFree.of_callee? {r : Registry} (l : List Expr)
    (hoperands : ∀ e ∈ l, ∀ p ∈ e.operands, p ∈ l)
    (hcallee : ∀ e ∈ l, ∀ name, e.callee? = some name → r.isAggregate name = false) {e : Expr}
    (he : e ∈ l) : AggregateFree r e := by
  induction e using Expr.operands_induction with
  | step e ih => exact .intro (hcallee e he) fun p hp => ih p hp (hoperands e he p hp)

/-- The row belongs to a group. -/
def Context.InGroup (c : Context) (i : Nat) : Prop := ((c.frame.rows[i]?).bind (·.group)).isSome

instance (c : Context) (i : Nat) : Decidable (c.InGroup i) := inferInstanceAs (Decidable (_ = true))

namespace Context

/-- The group of all rows. -/
def wholeGroup (c : Context) : Frame := if c.sourceEmpty then c.frame.empty else c.frame

/-- The context after an aggregate has turned all rows into one group. -/
def collapse (c : Context) : Context :=
  let frame : Frame :=
    ⟨[], (c.frame.rows.extract 0 1).map fun r => { r with group := some c.wholeGroup }⟩
  rebuildFields { c with
    frame := frame
    memo := c.memo.extract 0 frame.size
    collapsed := true
    aggregated := true }

end Context

namespace Step

/-! ### Looks at a row -/

theorem readField_apply (name : String) (row : Nat) (b : Bool) (c : Context) :
    readField name row b c = match c.resolve name with
      | .ok table => .ok (((c.frame.view? table).map (·.value row name)).getD .null)
          (if b then c else { c with sawPlainColumn := true })
      | .error e => .error e c := by
  rw [readField, get_bind]
  cases c.resolve name with
  | error e => rfl
  | ok table => cases b <;> rfl

theorem readQualified_apply (table name : String) (row : Nat) (b : Bool) (c : Context) :
    readQualified table name row b c = match c.frame.view? table with
      | some v =>
        if v.declares name then
          .ok (v.value row name) (if b then c else { c with sawPlainColumn := true })
        else .error (.unknownTableField table name) c
      | none => .error (if c.collapsed then .mixedAggregate else .unknownTable table) c := by
  rw [readQualified, get_bind]
  cases c.frame.view? table with
  | none => rfl
  | some v =>
    cases h : v.declares name <;> simp only [h, if_true, Bool.false_eq_true, if_false]
    · rfl
    · cases b <;> rfl

theorem readWindow_apply (label : String) (row : Nat) (c : Context) :
    readWindow label row c =
      if c.sourceEmpty then .ok .null c
      else match (c.frame.rows[row]?).bind (·.windows.get? label) with
        | some v => .ok v c
        | none => .error (.missingWindowResult label) c := by
  rw [readWindow, get_bind]
  cases c.sourceEmpty with
  | true => rfl
  | false => cases (c.frame.rows[row]?).bind (·.windows.get? label) <;> rfl

/-- A field that was read belongs to a view, and is noticed. -/
theorem readField_eq_ok {name : String} {row : Nat} {c d : Context} {x : Value}
    (h : readField name row false c = .ok x d) :
    (∃ table, c.resolve name = .ok table) ∧ d = { c with sawPlainColumn := true } := by
  rw [readField_apply] at h
  cases hr : c.resolve name with
  | error e =>
    rw [hr] at h
    cases h
  | ok table =>
    rw [hr] at h
    cases h
    exact ⟨⟨table, rfl⟩, rfl⟩

theorem readQualified_eq_ok {table name : String} {row : Nat} {c d : Context} {x : Value}
    (h : readQualified table name row false c = .ok x d) :
    c.frame.views ≠ [] ∧ d = { c with sawPlainColumn := true } := by
  rw [readQualified_apply] at h
  cases hv : c.frame.view? table with
  | none =>
    rw [hv] at h
    cases h
  | some v =>
    rw [hv] at h
    refine ⟨fun hnil => ?_, ?_⟩
    · rw [Frame.view?, hnil] at hv
      cases hv
    · dsimp only at h
      split at h
      · cases h
        rfl
      · cases h

theorem readWindow_eq_ok {label : String} {row : Nat} {c d : Context} {x : Value}
    (h : readWindow label row c = .ok x d) : d = c := by
  rw [readWindow_apply] at h
  split at h
  · cases h
    rfl
  · split at h
    · cases h
      rfl
    · cases h

/-- A row in a group needs no other rows. -/
theorem groupOf_of_group {row : Nat} {c : Context} {g : Frame}
    (h : (c.frame.rows[row]?).bind (·.group) = some g) :
    groupOf row c = .ok g { c with aggregated := true } := by
  rw [groupOf, get_bind, h]
  rfl

/-- Without a group all rows become one. -/
theorem groupOf_of_none {row : Nat} {c : Context}
    (h : (c.frame.rows[row]?).bind (·.group) = none) (hsaw : c.sawPlainColumn = false) :
    groupOf row c = .ok c.wholeGroup c.collapse := by
  have hnot : ¬c.sawPlainColumn = true := by rw [hsaw]; exact Bool.false_ne_true
  rw [groupOf, get_bind, h]
  simp only [if_neg hnot]
  rfl

theorem groupOf_of_sawPlainColumn {row : Nat} {c : Context}
    (h : (c.frame.rows[row]?).bind (·.group) = none) (hsaw : c.sawPlainColumn = true) :
    groupOf row c = .error .mixedAggregate c := by
  rw [groupOf, get_bind, h]
  simp only [hsaw, if_true]
  rfl

/-- A group is found for the row, or made of all rows before a plain column was read. -/
theorem groupOf_eq_ok {row : Nat} {c d : Context} {g : Frame} (h : groupOf row c = .ok g d) :
    (c.InGroup row ∧ (c.frame.rows[row]?).bind (·.group) = some g ∧ d = { c with aggregated := true }) ∨
      (c.sawPlainColumn = false ∧ g = c.wholeGroup ∧ d = c.collapse) := by
  cases hg : (c.frame.rows[row]?).bind (·.group) with
  | some g' =>
    rw [groupOf_of_group hg] at h
    cases h
    exact .inl ⟨by rw [Context.InGroup, hg]; rfl, rfl, rfl⟩
  | none =>
    cases hsaw : c.sawPlainColumn with
    | true =>
      rw [groupOf_of_sawPlainColumn hg hsaw] at h
      cases h
    | false =>
      rw [groupOf_of_none hg hsaw] at h
      cases h
      exact .inr ⟨rfl, rfl, rfl⟩

end Step

/-- A relation between contexts that a look at a row keeps. -/
structure RowRelation (engine : Engine) where
  Index : Type
  row : Index → Nat
  otherRow : Index → Nat
  related : Index → Context → Context → Prop
  /-- Aggregate functions may be called. -/
  aggregates : Prop
  sameRow : ∀ {x c d}, related x c d → c.SameRow (row x) (otherRow x) d
  note : ∀ {x c d}, related x c d →
    related x { c with sawPlainColumn := true } { d with sawPlainColumn := true }
  remember : ∀ {x c d} label v, related x c d →
    related x (c.remember engine (row x) label v) (d.remember engine (otherRow x) label v)
  groupOf : aggregates → ∀ x, Step.Simulates (related x) (fun _ => False)
    (Step.groupOf (row x)) (Step.groupOf (otherRow x))

namespace RowRelation

open Step

variable {engine : Engine} (R : RowRelation engine) {x : R.Index}

/-- What is noted of a field that is read. -/
theorem noteUnless (b : Bool) {c d : Context} (h : R.related x c d) :
    R.related x (if b then c else { c with sawPlainColumn := true })
      (if b then d else { d with sawPlainColumn := true }) := by
  cases b with
  | true => exact h
  | false => exact R.note h

theorem readField (name : String) (b : Bool) : Simulates (R.related x) (fun _ => False)
    (Step.readField name (R.row x) b) (Step.readField name (R.otherRow x) b) := by
  intro c d h
  have hs := R.sameRow h
  have hcell : ∀ table, ((c.frame.view? table).map (·.value (R.row x) name)).getD .null =
      ((d.frame.view? table).map (·.value (R.otherRow x) name)).getD .null :=
    fun table => by rw [hs.frame.cells]
  rw [readField_apply, readField_apply, hs.resolve]
  cases d.resolve name with
  | error e => exact .error e
  | ok table =>
    simp only [hcell]
    exact .ok _ (R.noteUnless b h)

theorem readQualified (table name : String) (b : Bool) :
    Simulates (R.related x) (fun _ => False) (Step.readQualified table name (R.row x) b)
      (Step.readQualified table name (R.otherRow x) b) := by
  intro c d h
  have hs := R.sameRow h
  have hfields := hs.frame.fields table
  have hcell := hs.frame.cells table name
  rw [readQualified_apply, readQualified_apply]
  cases hv : c.frame.view? table <;> cases hw : d.frame.view? table <;>
    rw [hv, hw] at hfields hcell
  · rw [hs.collapsed]
    exact .error _
  · cases hfields
  · cases hfields
  · rename_i v w
    have hdeclares : v.declares name = w.declares name := by
      rw [View.declares, View.declares, Option.some.inj hfields]
    have hvalue : v.value (R.row x) name = w.value (R.otherRow x) name := Option.some.inj hcell
    simp only [hdeclares, hvalue]
    split
    · exact .ok _ (R.noteUnless b h)
    · exact .error _

theorem readWindow (label : String) : Simulates (R.related x) (fun _ => False)
    (Step.readWindow label (R.row x)) (Step.readWindow label (R.otherRow x)) := by
  intro c d h
  have hs := R.sameRow h
  rw [readWindow_apply, readWindow_apply, hs.sourceEmpty, hs.frame.windows]
  split
  · exact .ok _ h
  · cases (d.frame.rows[R.otherRow x]?).bind (·.windows.get? label) with
    | none => exact .error _
    | some v => exact .ok v h

theorem call {name : String} (hname : R.aggregates ∨ engine.functions.isAggregate name = false)
    (q : Option Quantifier) (b : Bool) {f : Nat → Bool → Step (List Value)}
    (hf : Simulates (R.related x) (fun _ => False) (f (R.row x) b) (f (R.otherRow x) b)) :
    Simulates (R.related x) (fun _ => False) (Step.call engine name q f (R.row x) b)
      (Step.call engine name q f (R.otherRow x) b) := by
  refine StepRelation.call (.simulates _ _) rfl (fun _ _ _ _ _ => trivial) (fun _ _ => hf)
    fun h hfind => ?_
  have hagg : R.aggregates := by
    refine hname.resolve_right fun hnot => ?_
    simp [Registry.isAggregate, hfind] at hnot
  exact .bind (R.groupOf hagg x) fun group => .lift _

theorem value (v : Evaluator) (b : Bool)
    (h : Simulates (R.related x) (fun _ => False) (v.compute (R.row x) b)
      (v.compute (R.otherRow x) b)) :
    Simulates (R.related x) (fun _ => False) (v.value engine (R.row x) b)
      (v.value engine (R.otherRow x) b) := by
  cases hl : v.label? with
  | none =>
    rw [Evaluator.value_of_label?_eq_none hl, Evaluator.value_of_label?_eq_none hl]
    exact h
  | some label =>
    intro c d hcd
    have hmemo := (R.sameRow hcd).remembered? engine label
    cases hd : d.remembered? engine (R.otherRow x) label with
    | some y =>
      rw [Evaluator.value_of_remembered hl (hmemo.trans hd), Evaluator.value_of_remembered hl hd]
      exact .ok y hcd
    | none =>
      rw [Evaluator.value_of_not_remembered hl (hmemo.trans hd),
        Evaluator.value_of_not_remembered hl hd]
      have hcompute := h hcd
      generalize v.compute (R.row x) b c = r at hcompute ⊢
      generalize v.compute (R.otherRow x) b d = r' at hcompute ⊢
      cases hcompute with
      | ok y h' => exact .ok y (R.remember label y h')
      | error e => exact .error e
      | excused he => exact he.elim

/-- The simulation of an engine by itself in rows of related contexts. -/
def simulation : SelfSimulation engine where
  Index := R.Index × Bool
  row x := R.row x.1
  otherRow x := R.otherRow x.1
  inAggregate := Prod.snd
  relation x := .simulates (R.related x.1) fun _ => False
  admits e := R.aggregates ∨ e.AggregateFree engine.functions
  operand h hp := h.imp_right fun hfree => hfree.operand hp
  readField x name := R.readField name x.2
  readQualified x table name := R.readQualified table name x.2
  readWindow _ _ _ _ _ _ := R.readWindow _
  call x _ _ q _ he hname hf := R.call (he.imp_right fun | .intro h _ => h _ hname) q x.2 hf
  value x _ _ h := R.value _ x.2 h

/-- Evaluation keeps the relation. -/
theorem evaluate {e : Expr} (he : R.aggregates ∨ e.AggregateFree engine.functions) (b : Bool) :
    Simulates (R.related x) (fun _ => False) ((e.evaluator engine).value engine (R.row x) b)
      ((e.evaluator engine).value engine (R.otherRow x) b) :=
  R.simulation.evaluate he (x, b)

theorem values {es : List Expr}
    (hes : ∀ e ∈ es, R.aggregates ∨ e.AggregateFree engine.functions) (b : Bool) :
    Simulates (R.related x) (fun _ => False)
      (Evaluator.values engine (Expr.evaluators engine es) (R.row x) b)
      (Evaluator.values engine (Expr.evaluators engine es) (R.otherRow x) b) :=
  R.simulation.values hes (x, b)

theorem holds {e : Expr} (he : R.aggregates ∨ e.AggregateFree engine.functions) :
    Simulates (R.related x) (fun _ => False) ((e.evaluator engine).holds engine (R.row x))
      ((e.evaluator engine).holds engine (R.otherRow x)) :=
  R.simulation.holds he (x := (x, false)) rfl

end RowRelation

/-! ### Local actions -/

theorem Context.SameRow.inGroup {i j : Nat} {c d : Context} (s : c.SameRow i j d)
    (h : c.InGroup i) : d.InGroup j := by
  rwa [Context.InGroup, s.frame.group] at h

/-- A row in each of two contexts. -/
structure Spot where
  row : Nat
  otherRow : Nat
  start : Context
  otherStart : Context

namespace Spot

/-- The rows hold the same, and nothing else has changed since the start. -/
structure Related (x : Spot) (c d : Context) : Prop where
  sameRow : c.SameRow x.row x.otherRow d
  touched : x.start.Touched (· = x.row) c
  otherTouched : x.otherStart.Touched (· = x.otherRow) d

/-- A look at a row in each of two contexts, where the row may have to be in a group. -/
def relation (engine : Engine) (inGroup : Prop) : RowRelation engine where
  Index := Spot
  row := row
  otherRow := otherRow
  related x c d := x.Related c d ∧ (inGroup → c.InGroup x.row)
  aggregates := inGroup
  sameRow h := h.1.sameRow
  note h := ⟨⟨h.1.sameRow.note _ _, h.1.touched.note _, h.1.otherTouched.note _⟩, h.2⟩
  remember label v h :=
    have hsame := h.1.sameRow.remember engine label v
    have htouched := h.1.touched.remember rfl engine label v
    have hother := h.1.otherTouched.remember rfl engine label v
    have hframe : (Context.remember _ engine _ label v).frame = _ :=
      htouched.frame.trans h.1.touched.frame.symm
    ⟨⟨hsame, htouched, hother⟩, fun hg => by rw [Context.InGroup, hframe]; exact h.2 hg⟩
  groupOf hg x c d h := by
    obtain ⟨g, hc⟩ := Option.isSome_iff_exists.mp (h.2 hg)
    have hd : (d.frame.rows[x.otherRow]?).bind (·.group) = some g :=
      h.1.sameRow.frame.group.symm.trans hc
    rw [Step.groupOf_of_group hc, Step.groupOf_of_group hd]
    exact .ok g ⟨⟨h.1.sameRow.noteAggregated _ _, h.1.touched.noteAggregated _,
      h.1.otherTouched.noteAggregated _⟩, h.2⟩

end Spot

namespace Step

variable {α β : Type} {free : Prop} {action : Nat → Step α} {i j : Nat} {c d : Context}

/-- In rows that hold the same the action answers alike, and leaves nothing but what is remembered
about the row. The row is in a group, or else the action is free of aggregates. -/
def Local (free : Prop) (action : Nat → Step α) : Prop :=
  ∀ ⦃i j : Nat⦄ ⦃c d : Context⦄, c.InGroup i ∨ free → c.SameRow i j d →
    Agree (Spot.Related ⟨i, j, c, d⟩) (fun _ => False) (action i c) (action j d)

theorem spot_related (engine : Engine) (s : c.SameRow i j d) :
    (Spot.relation engine (c.InGroup i)).related ⟨i, j, c, d⟩ c d :=
  ⟨⟨s, .refl _ c, .refl _ d⟩, id⟩

/-- The evaluation of several expressions is local. -/
theorem local_values (engine : Engine) (es : List Expr) (b : Bool) :
    Local (∀ e ∈ es, e.AggregateFree engine.functions)
      (fun i => Evaluator.values engine (Expr.evaluators engine es) i b) := by
  intro i j c d h s
  have hes : ∀ e ∈ es, c.InGroup i ∨ e.AggregateFree engine.functions :=
    fun e he => h.imp_right fun hfree => hfree e he
  exact ((Spot.relation engine (c.InGroup i)).values hes b (spot_related engine s)).mono
    fun _ _ h => h.1

/-- The evaluation of an expression is local. -/
theorem local_evaluate (engine : Engine) (e : Expr) (b : Bool) :
    Local (e.AggregateFree engine.functions) (fun i => (e.evaluator engine).value engine i b) :=
  fun _ _ c _ h s =>
    ((Spot.relation engine (c.InGroup _)).evaluate h b (spot_related engine s)).mono
      fun _ _ h => h.1

/-- The truth of an expression is local. -/
theorem local_holds (engine : Engine) (e : Expr) :
    Local (e.AggregateFree engine.functions) (fun i => (e.evaluator engine).holds engine i) :=
  fun _ _ c _ h s =>
    ((Spot.relation engine (c.InGroup _)).holds h (spot_related engine s)).mono fun _ _ h => h.1

namespace Local

theorem pure (free : Prop) (a : α) : Local free fun _ => pure a :=
  fun _ _ c d _ s => .ok a ⟨s, .refl _ c, .refl _ d⟩

/-- One local action after the other. -/
theorem bind {next : Nat → α → Step β} (h : Local free action)
    (h' : ∀ a, Local free fun i => next i a) : Local free fun i => action i >>= next i := by
  intro i j c d hi s
  have hcd := h hi s
  show Agree _ _ (EStateM.bind (action i) (next i) c) (EStateM.bind (action j) (next j) d)
  rw [EStateM.bind, EStateM.bind]
  generalize action i c = r at hcd ⊢
  generalize action j d = r' at hcd ⊢
  cases hcd with
  | @ok a c' d' hr =>
    have hi' : c'.InGroup i ∨ free := hi.imp_left fun hin => by
      rw [Context.InGroup, hr.touched.frame]
      exact hin
    refine (h' a hi' hr.sameRow).mono fun e e' hr' => ⟨hr'.sameRow, ?_, ?_⟩
    · exact hr.touched.trans hr'.touched
    · exact hr.otherTouched.trans hr'.otherTouched
  | error e => exact .error e
  | excused h => exact h.elim

/-- Local actions answer alike in rows that hold the same. -/
theorem runIn_eq (h : Local free action) (hi : c.InGroup i ∨ free) (s : c.SameRow i j d) :
    (action i).runIn c = (action j).runIn d := by
  have hcd := h hi s
  rw [runIn, runIn, EStateM.run, EStateM.run]
  generalize action i c = r at hcd ⊢
  generalize action j d = r' at hcd ⊢
  cases hcd with
  | ok a => rfl
  | error e => rfl
  | excused h => exact h.elim

/-- What has been done in other rows makes no difference. -/
theorem answers (h : Local free action) (hi : c.InGroup i ∨ free) (t : c.Touched (· ≠ i) d) :
    Answers (action i) d (fun _ d' => d.Touched (· = i) d') ((action i).runIn c) := by
  have s : c.SameRow i i d := t.sameRow fun hne => hne rfl
  have hcd := h hi s
  rw [h.runIn_eq hi s]
  refine (Answers.of_runIn _ _).mono fun a d' _ hd' => ?_
  rw [hd'] at hcd
  generalize action i c = r at hcd
  cases hcd with
  | ok _ h => exact h.otherTouched

/-- What one action leaves is what is left of it. -/
theorem sameRow (h : Local free action) (hi : c.InGroup i ∨ free) (s : c.SameRow i j d) {a a' : α}
    {c' d' : Context} (hc : action i c = .ok a c') (hd : action j d = .ok a' d') :
    a = a' ∧ c'.SameRow i j d' := by
  have hcd := h hi s
  rw [hc, hd] at hcd
  cases hcd with
  | ok _ h => exact ⟨rfl, h.sameRow⟩

/-- An action in every row. Each row is left as the action would leave it alone. -/
theorem rows (h : Local free action) (hc : ∀ i < c.size, c.InGroup i ∨ free) :
    Answers (rows action) c (fun _ d => c.Touched (· < c.size) d ∧
      ∀ i < c.size, ∀ a e, action i c = .ok a e → e.SameRow i i d)
      (((List.range c.size).mapM fun i => (action i).runIn c).map List.toArray) := by
  refine Answers.rows (I := fun k d => c.Touched (· < k) d ∧
    ∀ i < k, ∀ a e, action i c = .ok a e → e.SameRow i i d)
    ⟨.refl _ c, fun i hi => absurd hi (Nat.not_lt_zero i)⟩ (fun _ d t => t.1.size) fun k hk d t => ?_
  have hanswers := h.answers (hc k hk) (t.1.mono fun i hi => Nat.ne_of_lt hi)
  have hk' : c.SameRow k k d := t.1.sameRow (Nat.lt_irrefl k)
  rw [h.runIn_eq (hc k hk) hk'] at hanswers ⊢
  refine ((Answers.of_runIn (action k) d).and hanswers).mono fun a d' _ ⟨hd', t'⟩ => ⟨?_, ?_⟩
  · exact (t.1.mono fun i hi => Nat.lt_succ_of_lt hi).trans
      (t'.mono fun i hi => hi ▸ k.lt_succ_self)
  · intro i hi a' e he
    obtain hlt | rfl := Nat.lt_succ_iff_lt_or_eq.mp hi
    · exact (t.2 i hlt a' e he).trans (t'.sameRow (Nat.ne_of_lt hlt))
    · exact (h.sameRow (hc i hk) hk' he hd').2

/-- The results of a loop are those of the actions alone. -/
theorem rows_of_ok [Inhabited α] {as : Array α} (h : Local free action)
    (hc : ∀ i < c.size, c.InGroup i ∨ free) (hrows : Step.rows action c = .ok as d) :
    c.Touched (· < c.size) d ∧ (∀ i < c.size, ∀ a e, action i c = .ok a e → e.SameRow i i d) ∧
      ∃ g, (∀ i < c.size, (action i).runIn c = .ok (g i)) ∧
        as = ((List.range c.size).map g).toArray := by
  obtain ⟨hresult, htouched, hstates⟩ := (h.rows hc).of_ok hrows
  refine ⟨htouched, hstates, ?_⟩
  cases hmapM : (List.range c.size).mapM fun i => (action i).runIn c with
  | error e =>
    rw [hmapM] at hresult
    cases hresult
  | ok l =>
    rw [hmapM] at hresult
    obtain ⟨g, hg, rfl⟩ := exists_of_mapM_eq_ok hmapM
    exact ⟨g, fun i hi => hg i (List.mem_range.mpr hi), (Except.ok.inj hresult).symm⟩

end Local

/-- An action for every item of a list, where each item has a row of its own. -/
theorem Answers.mapM_touched {l : List β} {row : β → Nat} (hl : (l.map row).Nodup)
    {f : β → Step α} (hf : ∀ b ∈ l, ∀ d, c.Touched (· ≠ row b) d →
      Answers (f b) d (fun _ d' => d.Touched (· = row b) d') ((f b).runIn c)) :
    Answers (l.mapM f) c (fun _ d => c.Touched (fun _ => True) d)
      (l.mapM fun b => (f b).runIn c) := by
  have hmapM := Answers.mapM (f := f) (g := fun b => (f b).runIn c)
    (I := fun done d => c.Touched (· ∈ done.map row) d) l [] (.refl _ c)
    fun before b after d he t => ?_
  · exact hmapM.mono fun _ d _ t => t.mono fun _ _ => trivial
  · rw [List.nil_append] at he
    subst he
    have hne : row b ∉ before.map row := by
      rw [List.map_append, List.nodup_append] at hl
      exact fun hmem => hl.2.2 _ hmem _ (by simp) rfl
    refine (hf b (by simp) d (t.mono fun i hi he => hne (he ▸ hi))).mono fun _ d' _ t' => ?_
    exact (t.mono fun i hi => by simp [hi]).trans (t'.mono fun i hi => by simp [hi])

end Step

end TableQuery
