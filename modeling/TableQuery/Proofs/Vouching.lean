/-
Memories that can be trusted.

Whatever is evaluated in a row may be remembered, and with it parts of other expressions. If expressions that
have the label of a part are parts themselves, then what is remembered for a part is what the part amounts
to, as long as the columns are there.

* `Expr.Clear` — whatever has the label of a part is a part;
* `Step.vouches_values` — a look at a row leaves a memory of it that can be trusted;
* `Step.exists_of_values`, `Step.exists_touched_of_values` — what is computed on the way to several values.
-/
import TableQuery.Proofs.Amounts
import TableQuery.Proofs.Recalled

namespace TableQuery

/-- Whatever is evaluated for the expression and has the label of a part is a part. -/
def Expr.Clear (parts : Expr → Prop) (e : Expr) : Prop :=
  ∀ q : Expr, q.Within e → q.isRemembered = true →
    ∀ r, parts r → r.isRemembered = true → q.label = r.label → parts q

theorem Expr.Clear.operand {parts : Expr → Prop} {e p : Expr} (h : e.Clear parts)
    (hp : p ∈ e.operands) : p.Clear parts :=
  fun q hq => h q (hq.trans (.operand hp (.self p)))

/-- What is no part has a label of its own. -/
theorem Expr.Clear.label_ne {parts : Expr → Prop} {e : Expr} (h : e.Clear parts) (hpart : ¬parts e)
    (hr : e.isRemembered = true) : ∀ r, parts r → r.isRemembered = true → r.label ≠ e.label :=
  fun r hr' hremembered hsame => hpart (h e (.self e) hr r hr' hremembered hsame.symm)

namespace Context

variable {engine : Engine} {parts : Expr → Prop} {row : Row} {i : Nat} {c start : Context}

theorem Vouches.remember (h : c.Vouches engine parts row i) {label : String}
    (hl : ∀ r, parts r → r.isRemembered = true → r.label ≠ label) (x : Value) :
    (c.remember engine i label x).Vouches engine parts row i := by
  intro r hpart hr y hy
  rw [remembered?_remember_ne (hl r hpart hr)] at hy
  exact h r hpart hr y hy

/-- Nothing has changed since the start but what is remembered for the row, which can be trusted; or all
columns are gone. -/
def Vouching (engine : Engine) (parts : Expr → Prop) (row : Row) (i : Nat) (start c : Context) : Prop :=
  c.Void ∨ start.Touched (· = i) c ∧ c.Vouches engine parts row i

end Context

namespace Step

open Context

variable {engine : Engine} {parts : Expr → Prop} {fields : List String} {row : Row} {i : Nat}
  {c d start : Context} {es : List Expr}

theorem vouching_note (h : Vouching engine parts row i start c) :
    Vouching engine parts row i start { c with sawPlainColumn := true } :=
  h.imp (fun hvoid => hvoid.note true) fun h => ⟨h.1.note true, h.2⟩

theorem vouching_groupOf : Ensures (Vouching engine parts row i start) (groupOf i)
    fun _ => Vouching engine parts row i start := by
  intro c g d hc he
  obtain ⟨-, -, rfl⟩ | ⟨-, -, rfl⟩ := groupOf_eq_ok he
  · exact hc.imp (fun hvoid => ⟨hvoid.views, hvoid.direct, hvoid.ambiguous⟩)
      fun h => ⟨h.1.noteAggregated true, h.2⟩
  · exact .inl c.void_collapse

theorem vouching_value (hparts : Expr.Family parts)
    (hover : ∀ r, parts r → r.Over engine.functions fields) (hshows : start.Shows fields row i) {e : Expr}
    (he : e.Clear parts) (h : Ensures (Vouching engine parts row i start)
      ((e.evaluator engine).compute i false) fun _ => Vouching engine parts row i start) :
    Ensures (Vouching engine parts row i start) ((e.evaluator engine).value engine i false)
      fun _ => Vouching engine parts row i start := by
  by_cases hpart : parts e
  · rintro c x d (hvoid | ⟨t, hvouches⟩) hx
    · exact .inl ((steady_void engine).evaluate (.inl trivial) i false hvoid hx)
    · obtain ⟨-, hworked⟩ := Expr.Over.of_value hparts (hover e hpart) hpart (hshows.touched t) hvouches hx
      exact .inr ⟨t.trans hworked.touched, hworked.vouches⟩
  · refine h.value (fun hc _ _ => hc) (fun {c} x hc hr => ?_) fun hc => hc
    refine hc.imp ((steady_void engine).remember i e.label x) fun hc => ⟨?_, ?_⟩
    · exact hc.1.remember rfl engine e.label x
    · exact hc.2.remember (he.label_ne hpart hr) x

/-- The evaluation of expressions that leave a memory that can be trusted. -/
def vouchSimulation (hparts : Expr.Family parts) (hover : ∀ r, parts r → r.Over engine.functions fields)
    (hshows : start.Shows fields row i) : SelfSimulation engine where
  Index := Unit
  row _ := i
  otherRow _ := i
  inAggregate _ := false
  relation _ := .keeps (Vouching engine parts row i start)
  admits := Expr.Clear parts
  operand h hp := h.operand hp
  readField _ name := ⟨rfl, fun c x d hc h => by
    obtain ⟨-, rfl⟩ := readField_eq_ok h
    exact vouching_note hc⟩
  readQualified _ table name := ⟨rfl, fun c x d hc h => by
    obtain ⟨-, rfl⟩ := readQualified_eq_ok h
    exact vouching_note hc⟩
  readWindow _ _ _ _ _ _ := ⟨rfl, fun c x d hc h => readWindow_eq_ok h ▸ hc⟩
  call _ _ _ q _ _ _ hf := (StepRelation.keeps _).call rfl (fun _ _ _ _ _ => trivial)
    (fun _ _ => hf) fun h _ => by
    exact (StepRelation.keeps _).bind ⟨rfl, vouching_groupOf⟩ fun _ =>
      (StepRelation.keeps _).lift fun _ _ => trivial
  value _ _ he h := ⟨rfl, vouching_value hparts hover hshows he h.2⟩

/-- A look at a row leaves a memory that can be trusted. -/
theorem vouches_values (hparts : Expr.Family parts)
    (hover : ∀ r, parts r → r.Over engine.functions fields) (hes : ∀ e ∈ es, e.Clear parts)
    (hshows : c.Shows fields row i) (hvouches : c.Vouches engine parts row i) {xs : List Value}
    (h : Evaluator.values engine (Expr.evaluators engine es) i false c = .ok xs d) :
    Vouching engine parts row i c d :=
  ((vouchSimulation hparts hover hshows).values hes ()).2 (.inr ⟨.refl _ c, hvouches⟩) h

theorem vouches_value (hparts : Expr.Family parts)
    (hover : ∀ r, parts r → r.Over engine.functions fields) {e : Expr} (he : e.Clear parts)
    (hshows : c.Shows fields row i) (hvouches : c.Vouches engine parts row i) {x : Value}
    (h : (e.evaluator engine).value engine i false c = .ok x d) : Vouching engine parts row i c d :=
  ((vouchSimulation hparts hover hshows).evaluate he ()).2 (.inr ⟨.refl _ c, hvouches⟩) h

/-- What is computed on the way to several values, as long as the columns are there: every expression in a
context in which nothing was done but a look at the row. -/
theorem exists_of_values (hparts : Expr.Family parts)
    (hover : ∀ r, parts r → r.Over engine.functions fields) (hes : ∀ e ∈ es, e.Clear parts)
    (hshows : c.Shows fields row i) (hvouches : c.Vouches engine parts row i)
    {xs : List Value} (h : Evaluator.values engine (Expr.evaluators engine es) i false c = .ok xs d)
    (hvoid : ¬d.Void) {k : Nat} {e : Expr} (hk : es[k]? = some e) :
    ∃ v c' c'', xs[k]? = some v ∧ c.Touched (· = i) c' ∧ c'.Vouches engine parts row i ∧
      (e.evaluator engine).value engine i false c' = .ok v c'' := by
  induction es generalizing c xs k with
  | nil => cases hk
  | cons e' es ih =>
    obtain ⟨v, c', ys, hv, hys, rfl⟩ := exists_of_values_cons h
    cases k with
    | zero =>
      obtain rfl : e' = e := Option.some.inj hk
      exact ⟨v, c, c', rfl, .refl _ c, hvouches, hv⟩
    | succ k =>
      obtain hlost | ⟨t, hvouches'⟩ := vouches_value hparts hover (hes e' List.mem_cons_self) hshows
        hvouches hv
      · exact absurd ((steady_void engine).values (fun _ _ => .inl trivial) i false hlost hys) hvoid
      obtain ⟨w, c₁, c₂, hw, t', hvouches', hvalue⟩ := ih
        (fun e he => hes e (List.mem_cons_of_mem e' he)) (hshows.touched t) hvouches' hys hk
      exact ⟨w, c₁, c₂, hw, t.trans t', hvouches', hvalue⟩

/-- Expressions that have values one after the other, as long as the columns are there: each has its value in
a context in which nothing was done but a look at the row. -/
theorem exists_touched_of_values {xs : List Value}
    (h : Evaluator.values engine (Expr.evaluators engine es) i false c = .ok xs d) (hvoid : ¬d.Void)
    {k : Nat} {e : Expr} (hk : es[k]? = some e) :
    ∃ v c' c'', xs[k]? = some v ∧ c.Touched (· = i) c' ∧
      (e.evaluator engine).value engine i false c' = .ok v c'' := by
  have hnone : Expr.Family fun _ => False := ⟨fun h _ => h, fun h _ _ _ => h.elim⟩
  have hshows : c.Shows [] .empty i := nofun
  obtain ⟨v, c', c'', hv, t, -, hvalue⟩ := exists_of_values hnone (fun _ h => h.elim)
    (fun e _ q _ _ r hr => hr.elim) hshows (fun r hr => hr.elim) h hvoid hk
  exact ⟨v, c', c'', hv, t, hvalue⟩

end Step

end TableQuery
