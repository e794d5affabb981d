/-
A condition, its negation, and whether it is Null.

A condition is true, false or Null in a row. As long as nothing is remembered, a query keeps each row under
exactly one of the condition, its negation, and the question whether it is Null; or it fails under all
three with the same error, for the first row in which the condition has no value.

* `Expr.hasTruth` — the three conditions;
* `Step.runIn_holds_hasTruth` — each is true where the condition has one truth;
* `Step.filter_hasTruth` — so they split the rows.
-/
import TableQuery.Proofs.Selection
import TableQuery.Proofs.Sources

namespace TableQuery

theorem Value.truth?_beq_none (v : Value) : (v.truth? == none) = v.isNull := by
  cases v <;> rfl

/-- The condition that another one is true, false or Null. -/
def Expr.hasTruth (p : Expr) : Option Bool → Expr
  | some true => p
  | some false => .unary .not p
  | none => .isNull p false

theorem Expr.AggregateFree.hasTruth {r : Registry} {p : Expr} (h : p.AggregateFree r) :
    ∀ t, (p.hasTruth t).AggregateFree r
  | some true => h
  | some false => .intro (fun _ hname => by cases hname) fun q hq => by
    rw [List.mem_singleton.mp hq]
    exact h
  | none => .intro (fun _ hname => by cases hname) fun q hq => by
    rw [List.mem_singleton.mp hq]
    exact h

namespace Step

variable {engine : Engine} {c : Context} {p : Expr} {i : Nat}

/-- Actions that differ in what they make of their values fail at the same item. -/
theorem mapM_eq_map {α β γ ε : Type} {f : β → Except ε α} {f' : β → Except ε γ} {g : α → γ}
    {l : List β} (h : ∀ b ∈ l, f' b = (f b).map g) : l.mapM f' = (l.mapM f).map (List.map g) := by
  induction l with
  | nil => rfl
  | cons b l ih =>
    rw [List.mapM_cons, List.mapM_cons, h b List.mem_cons_self,
      ih fun b' hb' => h b' (List.mem_cons_of_mem b hb')]
    cases f b with
    | error e => rfl
    | ok a => cases l.mapM f <;> rfl

/-- A value that is computed from that of an operand, while nothing is remembered. -/
theorem runIn_value_of_operand {e : Expr} {g : Value → Value} (hr : e.isRemembered = true)
    (hremembered : c.remembered? engine i e.label = none)
    (hcompute : (e.evaluator engine).compute i false =
      (p.evaluator engine).value engine i false >>= fun x => pure (g x)) :
    ((e.evaluator engine).value engine i false).runIn c =
      (((p.evaluator engine).value engine i false).runIn c).map g := by
  have hl := e.label?_evaluator engine
  rw [Expr.rememberedLabel?, if_pos hr] at hl
  rw [Evaluator.runIn_value_of_not_remembered hl hremembered, hcompute, runIn_bind_pure]

/-- Each of the three conditions is true where the condition has one truth. -/
theorem runIn_holds_hasTruth (p : Expr) (hremembered : ∀ label, c.remembered? engine i label = none)
    (t : Option Bool) :
    (((p.hasTruth t).evaluator engine).holds engine i).runIn c =
      (((p.evaluator engine).value engine i false).runIn c).map fun v => v.truth? == t := by
  rw [Evaluator.holds, runIn_bind_pure]
  -- `p` itself, its negation, and the question whether it is Null
  rcases t with _ | _ | _
  case some.true => rfl
  case some.false =>
    have hcompute : ((Expr.unary .not p).evaluator engine).compute i false =
        (p.evaluator engine).value engine i false >>= fun x =>
          pure (x.truth?.elim .null fun b => .boolean !b) := by
      rw [Expr.evaluator]
      refine bind_congr fun x => ?_
      rw [UnaryOperator.apply]
      cases x.truth? <;> rfl
    rw [Expr.hasTruth, runIn_value_of_operand rfl (hremembered _) hcompute]
    cases ((p.evaluator engine).value engine i false).runIn c with
    | error e => rfl
    | ok v =>
      refine congrArg Except.ok ?_
      dsimp only
      cases v.truth? with
      | none => rfl
      | some b => cases b <;> rfl
  case none =>
    have hcompute : ((Expr.isNull p false).evaluator engine).compute i false =
        (p.evaluator engine).value engine i false >>= fun x => pure (.boolean x.isNull) := by
      rw [Expr.evaluator]
      refine bind_congr fun x => ?_
      rw [Bool.bne_false]
    rw [Expr.hasTruth, runIn_value_of_operand rfl (hremembered _) hcompute]
    cases ((p.evaluator engine).value engine i false).runIn c with
    | error e => rfl
    | ok v =>
      refine congrArg Except.ok ?_
      show (some v.isNull == some true) = (v.truth? == none)
      rw [Value.truth?_beq_none]
      cases v.isNull <;> rfl

/-- A condition without a value in some row lets no row pass. -/
theorem filter_of_error {e : Expr} {err : ExecutionError}
    (hlook : ∀ i < c.size, c.InGroup i ∨ e.AggregateFree engine.functions)
    (h : ((List.range c.size).mapM fun i => ((e.evaluator engine).holds engine i).runIn c) =
      .error err) : (filter engine e).runIn c = .error err := by
  have hanswers := (local_holds engine e).rows hlook
  rw [h] at hanswers
  cases hanswers with
  | error hrows => exact runIn_bind_of_error hrows

/-- Of a condition, its negation, and the question whether it is Null, exactly one keeps a row, if none of
them fails; and they fail with the same error. Nothing may be remembered about the rows, nor may they have
been grouped by keys. -/
theorem filter_hasTruth (hmemo : c.Forgotten)
    (hkeys : ∀ (i : Nat) label, (c.frame.rows[i]?).bind (·.keys.get? label) = none)
    (hp : p.AggregateFree engine.functions) :
    (∃ kept : Option Bool → List Nat,
      (∀ t, ∃ d, filter engine (p.hasTruth t) c = .ok () d ∧ d.frame = c.frame.take (kept t)) ∧
      (∀ t, (kept t).Sublist (List.range c.size)) ∧ (∀ i < c.size, ∃! t, i ∈ kept t) ∧
      ∀ t, ∀ i ∈ kept t, ((evaluate engine p i false).runIn c).map Value.truth? = .ok t) ∨
    ∃ e, ∀ t, (filter engine (p.hasTruth t)).runIn c = .error e := by
  let value (i : Nat) : Except ExecutionError Value := (evaluate engine p i false).runIn c
  have hremembered : ∀ i < c.size, ∀ label, c.remembered? engine i label = none := by
    intro i hi label
    rw [Context.remembered?, hmemo.memo hi, hkeys]
    cases engine.remembers <;> rfl
  have hholds : ∀ t, ∀ i < c.size, (((p.hasTruth t).evaluator engine).holds engine i).runIn c =
      (value i).map fun v => v.truth? == t :=
    fun t i hi => runIn_holds_hasTruth p (hremembered i hi) t
  have hlook : ∀ t, ∀ i < c.size, c.InGroup i ∨ (p.hasTruth t).AggregateFree engine.functions :=
    fun t i _ => .inr (hp.hasTruth t)
  -- all three look at `p` in every row, so they fail together
  cases hvalues : (List.range c.size).mapM value with
  | error e =>
    refine .inr ⟨e, fun t => filter_of_error (hlook t) ?_⟩
    rw [mapM_eq_map fun i hi => hholds t i (List.mem_range.mp hi), hvalues]
    rfl
  | ok vs =>
    obtain ⟨v, hv, -⟩ := exists_of_mapM_eq_ok hvalues
    refine .inl ⟨fun t => (List.range c.size).filter fun i => (v i).truth? == t, fun t => ?_,
      fun t => List.filter_sublist, fun i hi => ⟨(v i).truth?, ?_, fun t ht => ?_⟩,
      fun t i hi => ?_⟩
    · have htruth : ∀ i < c.size, (((p.hasTruth t).evaluator engine).holds engine i).runIn c =
          .ok ((v i).truth? == t) := fun i hi => by
        rw [hholds t i hi, hv i (List.mem_range.mpr hi)]
        rfl
      obtain ⟨d, -, hd⟩ := filter_of_truth (hlook t) htruth
      exact ⟨_, hd, rfl⟩
    · exact List.mem_filter.mpr ⟨List.mem_range.mpr hi, beq_self_eq_true _⟩
    · exact (eq_of_beq (List.mem_filter.mp ht).2).symm
    · obtain ⟨hi, ht⟩ := List.mem_filter.mp hi
      rw [← eq_of_beq ht]
      exact congrArg (Except.map Value.truth?) (hv i hi)

/-- A number that counts as true, one that counts as false, and Null. -/
def truths : Context := Context.after .builtin {} (.addView "t" ⟨["x"],
  #[.ofList [("x", .ofNat 2)], .ofList [("x", .ofNat 0)], .ofList [("x", .null)]]⟩)

theorem filter_hasTruth_truths : ∃ kept : Option Bool → List Nat,
    (∀ t, ∃ d, filter .builtin ((Expr.field "x").hasTruth t) truths = .ok () d ∧
      d.frame = truths.frame.take (kept t)) ∧
    (∀ t, (kept t).Sublist [0, 1, 2]) ∧ (∀ i < 3, ∃! t, i ∈ kept t) ∧
    ∀ t, ∀ i ∈ kept t,
      ((evaluate .builtin (.field "x") i false).runIn truths).map Value.truth? = .ok t := by
  have hkeys : ∀ (i : Nat) label, (truths.frame.rows[i]?).bind (·.keys.get? label) = none := by
    have hbare : truths.Bare := by
      intro r hr
      simpa using Array.eq_of_mem_replicate hr
    exact fun i label => hbare.state rfl i
  have hmemo : truths.Forgotten := rfl
  refine (filter_hasTruth hmemo hkeys (.of_field _ "x")).resolve_right ?_
  rintro ⟨e, he⟩
  have hsome : ((filter .builtin (.field "x")).runIn truths).toOption.isSome = true := by
    decide +kernel
  rw [show (filter .builtin (.field "x")).runIn truths = .error e from he (some true)] at hsome
  cases hsome

end Step

end TableQuery
