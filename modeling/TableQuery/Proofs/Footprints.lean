/-
What an evaluation leaves behind.

Operations on rows evaluate expressions in one row after the other, and rely on it that the rows are still
there afterwards. An evaluation may stop anywhere with an error, and what was done before stays done. As long
as it needs no group that is not there, all that it does either way is to remember values for its row, where
none was remembered before, and to note that a column was read or an aggregate was called.

* `Step.left` — the context that a step leaves, with a value or with an error;
* `StepRelation.leaves` — steps that keep a condition on contexts either way;
* `Context.Looked` — a context after a look at a row;
* `Step.looked_evaluate` — evaluation is such a look.
-/
import TableQuery.Proofs.Memory

namespace TableQuery

/-! ### Values and errors -/

namespace Step

variable {α β : Type}

/-- The context that a step leaves, whether it gives a value or fails. -/
def left (s : Step α) (c : Context) : Context :=
  match s c with
  | .ok _ d => d
  | .error _ d => d

theorem left_of_ok {s : Step α} {c d : Context} {a : α} (h : s c = .ok a d) : s.left c = d := by
  rw [left, h]

theorem left_of_error {s : Step α} {c d : Context} {e : ExecutionError} (h : s c = .error e d) :
    s.left c = d := by
  rw [left, h]

/-- A step that fails is the last one. -/
theorem left_bind (s : Step α) (f : α → Step β) (c : Context) :
    (s >>= f).left c = match s c with
      | .ok a d => (f a).left d
      | .error _ d => d := by
  cases hs : s c with
  | ok a d =>
    rw [left, bind_of_ok hs]
    rfl
  | error e d => exact left_of_error (bind_of_error hs)

theorem left_lift (r : Except ExecutionError α) (c : Context) : (lift r).left c = c := by
  cases r <;> rfl

end Step

/-- A step beside itself that keeps a condition, whether it gives a value or fails. -/
def StepRelation.leaves (I : Context → Prop) : StepRelation where
  rel s t := s = t ∧ ∀ c, I c → I (s.left c)
  raises _ := True
  raises_of_isInternal _ := trivial
  pure _ := ⟨rfl, fun _ h => h⟩
  throw _ := ⟨rfl, fun _ h => h⟩
  bind {_ _ s _ f _} h hf := by
    refine ⟨by rw [h.1, funext fun a => (hf a).1], fun c hc => ?_⟩
    have hs := h.2 c hc
    rw [Step.left_bind]
    rw [Step.left] at hs
    split at hs
    · exact (hf _).2 _ hs
    · exact hs

/-! ### A look at a row -/

/-- Context `d` is `c` after a look at a row: values that were remembered for the row still are, and what was
noted before is not taken back. -/
structure Context.Looked (row : Nat) (c d : Context) : Prop extends c.Touched (· = row) d where
  held : ∀ label x, c.held? row label = some x → d.held? row label = some x
  sawPlainColumn : c.sawPlainColumn = true → d.sawPlainColumn = true
  aggregated : c.aggregated = true → d.aggregated = true

namespace Context.Looked

variable {row : Nat} {c d : Context}

theorem refl (row : Nat) (c : Context) : Looked row c c := ⟨.refl _ c, fun _ _ h => h, id, id⟩

theorem note (h : Looked row c d) : Looked row c { d with sawPlainColumn := true } :=
  { toTouched := h.toTouched.note true
    held := h.held
    sawPlainColumn := fun _ => rfl
    aggregated := h.aggregated }

theorem noteAggregated (h : Looked row c d) : Looked row c { d with aggregated := true } :=
  { toTouched := h.toTouched.noteAggregated true
    held := h.held
    sawPlainColumn := h.sawPlainColumn
    aggregated := fun _ => rfl }

theorem noteUnless (h : Looked row c d) (b : Bool) :
    Looked row c (if b then d else { d with sawPlainColumn := true }) := by
  cases b with
  | true => exact h
  | false => exact h.note

theorem inGroup (h : Looked row c d) (hgroup : c.InGroup row) : d.InGroup row := by
  rwa [InGroup, h.frame]

/-- A value may be remembered under a label under which none was. -/
theorem remember (h : Looked row c d) {label : String} (hnone : c.held? row label = none)
    (engine : Engine) (v : Value) : Looked row c (d.remember engine row label v) := by
  have hsaw : (d.remember engine row label v).sawPlainColumn = d.sawPlainColumn := by
    rw [remember_eq]
  have haggregated : (d.remember engine row label v).aggregated = d.aggregated := by
    rw [remember_eq]
  refine ⟨h.toTouched.remember rfl engine label v, fun other x hx => ?_, ?_, ?_⟩
  · have hother : other ≠ label := by
      rintro rfl
      rw [hnone] at hx
      cases hx
    rw [held?_remember, if_neg fun hp => hother hp.2.2.2]
    exact h.held other x hx
  · rw [hsaw]
    exact h.sawPlainColumn
  · rw [haggregated]
    exact h.aggregated

end Context.Looked

namespace Step

open Context

variable {engine : Engine} {row : Nat} {start c : Context}

theorem looked_readField (name : String) (b : Bool) (h : Looked row start c) :
    Looked row start ((readField name row b).left c) := by
  rw [left, readField_apply]
  cases c.resolve name with
  | ok table => exact h.noteUnless b
  | error e => exact h

theorem looked_readQualified (table name : String) (b : Bool) (h : Looked row start c) :
    Looked row start ((readQualified table name row b).left c) := by
  rw [left, readQualified_apply]
  cases c.frame.view? table with
  | none => exact h
  | some v =>
    cases hdeclares : v.declares name with
    | true => simpa only [hdeclares, if_true] using h.noteUnless b
    | false => simpa only [hdeclares, Bool.false_eq_true, if_false] using h

theorem looked_readWindow (label : String) (h : Looked row start c) :
    Looked row start ((readWindow label row).left c) := by
  have hleft : (readWindow label row).left c = c := by
    rw [left, readWindow_apply]
    cases c.sourceEmpty with
    | true => rfl
    | false => cases (c.frame.rows[row]?).bind (·.windows.get? label) <;> rfl
  rwa [hleft]

/-- The group of a row that has one is looked up. -/
theorem looked_groupOf (hgroup : start.InGroup row) (h : Looked row start c) :
    Looked row start ((groupOf row).left c) := by
  obtain ⟨g, hg⟩ := Option.isSome_iff_exists.mp (h.inGroup hgroup)
  rw [left_of_ok (groupOf_of_group hg)]
  exact h.noteAggregated

/-- A value is remembered for a row only if there was none under its label when the evaluation began: what
is computed in between takes nothing away. -/
theorem looked_value {v : Evaluator} {b : Bool}
    (hcompute : ∀ c, Looked row start c → Looked row start ((v.compute row b).left c))
    (h : Looked row start c) : Looked row start ((v.value engine row b).left c) := by
  cases hl : v.label? with
  | none =>
    rw [Evaluator.value_of_label?_eq_none hl]
    exact hcompute c h
  | some label =>
    cases hx : c.remembered? engine row label with
    | some x =>
      rw [left_of_ok (Evaluator.value_of_remembered hl hx b)]
      exact h
    | none =>
      have hd := hcompute c h
      rw [left, Evaluator.value_of_not_remembered hl hx]
      rw [left] at hd
      cases hv : v.compute row b c with
      | error e d =>
        rw [hv] at hd
        exact hd
      | ok x d =>
        rw [hv] at hd
        by_cases hremembers : engine.remembers = true
        · -- what was held when the evaluation began is held still, so nothing was held under the label
          refine hd.remember (Option.eq_none_iff_forall_ne_some.mpr fun y hy => ?_) engine x
          have hheld : c.remembered? engine row label = some y := by
            rw [remembered?, hremembers, if_pos rfl]
            exact Option.or_eq_some_iff.mpr (.inl (h.held label y hy))
          rw [hx] at hheld
          cases hheld
        · show Looked row start (d.remember engine row label x)
          rwa [Context.remember, if_neg hremembers]

/-- An evaluation beside itself, in a row that is in a group or without calls of aggregates. -/
def looking (engine : Engine) (row : Nat) (start : Context) : SelfSimulation engine where
  Index := Bool
  row _ := row
  otherRow _ := row
  inAggregate b := b
  relation _ := .leaves (Looked row start)
  admits e := start.InGroup row ∨ e.AggregateFree engine.functions
  operand h hp := h.imp_right fun hfree => hfree.operand hp
  readField b name := ⟨rfl, fun _ h => looked_readField name b h⟩
  readQualified b table name := ⟨rfl, fun _ h => looked_readQualified table name b h⟩
  readWindow _ _ _ _ _ _ := ⟨rfl, fun _ h => looked_readWindow _ h⟩
  call b e name q f he hname hf := by
    refine StepRelation.call (.leaves (Looked row start)) rfl (fun _ _ _ _ _ => trivial)
      (fun _ _ => hf) fun handler hfind => ?_
    have hgroup : start.InGroup row := by
      refine he.resolve_right fun hfree => ?_
      cases hfree with
      | intro hcallee _ =>
        have hnot := hcallee name hname
        simp [Registry.isAggregate, hfind] at hnot
    exact (StepRelation.leaves (Looked row start)).bind ⟨rfl, fun _ h => looked_groupOf hgroup h⟩
      fun group => ⟨rfl, fun c h => by rwa [left_lift]⟩
  value _ _ _ h := ⟨rfl, fun _ hc => looked_value h.2 hc⟩

/-- Whether an evaluation gives a value or fails, it leaves the rows, the tables of fields and what is
remembered about other rows alone, and takes nothing back that was remembered or noted. -/
theorem looked_evaluate {e : Expr} (h : e.AggregateFree engine.functions ∨ c.InGroup row) (b : Bool) :
    c.Looked row ((evaluate engine e row b).left c) ∧
      ((evaluate engine e row b).left c).size = c.size := by
  have hlooked := ((looking engine row c).evaluate h.symm b).2 c (.refl row c)
  exact ⟨hlooked, hlooked.size⟩

/-- An aggregate that is called, and a field that is not there. -/
def countAndMiss : Expr := .binary .add (.callStar "count") (.field "y")

theorem looked_evaluate_countAndMiss :
    let c : Context := .ofFrame ⟨[("t", ⟨["x"], #[.empty]⟩)], #[{ group := some (.ofSize 2) }]⟩
    let d := (evaluate .builtin countAndMiss 0 false).left c
    c.InGroup 0 ∧ ((evaluate .builtin countAndMiss 0 false).runIn c).toOption.isNone = true ∧
      c.Looked 0 d ∧ d.size = c.size ∧ c.held? 0 "count(*)" = none ∧ (d.held? 0 "count(*)").isSome = true := by
  intro c d
  have hgroup : c.InGroup 0 := by decide +kernel
  obtain ⟨hlooked, hsize⟩ := looked_evaluate (.inr hgroup) false
  exact ⟨hgroup, by decide +kernel, hlooked, hsize, rfl, by decide +kernel⟩

end Step

end TableQuery
