/-
Values one after the other.

When several expressions are evaluated in a row, a later one may find values remembered that an earlier
one has left. If labels tell apart what is evaluated, each of these is the value that the later
expression would have computed, and every expression has the value that it has alone.

* `Context.Sound` — what is remembered about a row is what is evaluated there from the start;
* `Step.sound_evaluate` — then an expression has the value that it has at the start, and what is
  remembered afterwards is as sound as before;
* `Step.runIn_values` — so several expressions have the values that they have alone.
-/
import TableQuery.Proofs.Memory

namespace TableQuery

namespace Context

/-- What is remembered about the row for the given expressions are the values that they have at the
start, and nothing of what was remembered there is forgotten. -/
structure Sound (engine : Engine) (A : Expr → Prop) (b : Bool) (i : Nat) (start d : Context) :
    Prop where
  touched : start.Touched (· = i) d
  kept : ∀ label v, start.held? i label = some v → d.held? i label = some v
  value : engine.remembers = true → ∀ e : Expr, A e → e.isRemembered = true →
    ∀ v, d.held? i e.label = some v → ((e.evaluator engine).value engine i b).runIn start = .ok v

variable {engine : Engine} {A : Expr → Prop} {b : Bool} {i : Nat} {start d : Context}

/-- At the start what is remembered is what evaluation finds. -/
theorem Sound.initial : Sound engine A b i start start where
  touched := .refl _ start
  kept _ _ h := h
  value hremembers e _ hr v hv := by
    have hl : (e.evaluator engine).label? = some e.label := by
      rw [e.label?_evaluator engine, Expr.rememberedLabel?, if_pos hr]
    have hfound : start.remembered? engine i e.label = some v := by
      rw [remembered?, if_pos hremembers]
      exact (congrArg (Option.or · _) hv).trans (Option.some_or ..)
    exact Step.runIn_eq_ok.mpr ⟨start, Evaluator.value_of_remembered hl hfound b⟩

theorem Sound.refl (h : ∀ label, start.held? i label = none) : Sound engine A b i start start where
  touched := .refl _ start
  kept _ _ h := h
  value _ e _ _ v hv := by
    rw [h e.label] at hv
    cases hv

theorem Sound.note (h : Sound engine A b i start d) (b' : Bool) :
    Sound engine A b i start (if b' then d else { d with sawPlainColumn := true }) := by
  cases b' with
  | true => exact h
  | false => exact ⟨h.touched.note true, h.kept, h.value⟩

theorem Sound.noteAggregated (h : Sound engine A b i start d) :
    Sound engine A b i start { d with aggregated := true } :=
  ⟨h.touched.noteAggregated true, h.kept, h.value⟩

theorem Sound.remember (h : Sound engine A b i start d) (hA : Expr.LabelsApart A) {e : Expr}
    {v : Value} (he : A e) (hr : e.isRemembered = true)
    (hv : ((e.evaluator engine).value engine i b).runIn start = .ok v) :
    Sound engine A b i start (d.remember engine i e.label v) where
  touched := h.touched.remember rfl engine e.label v
  kept label x hx := by
    rw [held?_remember]
    split
    · next hnew =>
      obtain ⟨hremembers, -, -, rfl⟩ := hnew
      have hsame := (initial.value hremembers e he hr x hx).symm.trans hv
      rw [Except.ok.inj hsame]
    · exact h.kept label x hx
  value hremembers e' he' hr' x hx := by
    obtain ⟨-, hlabel, rfl, -⟩ | hx := held?_of_remember hx
    · obtain rfl := hA he' he hr' hr hlabel
      exact hv
    · exact h.value hremembers e' he' hr' x hx

end Context

namespace Step

open Context

variable {engine : Engine} {A : Expr → Prop} {b : Bool} {i : Nat} {start : Context} {α : Type}

/-- From every context that is sound the step answers as it does at the start, and leaves one that is
sound. -/
def Repeats (engine : Engine) (A : Expr → Prop) (b : Bool) (i : Nat) (start : Context) (s : Step α) :
    Prop :=
  ∀ d, Sound engine A b i start d →
    Answers s d (fun _ d' => Sound engine A b i start d') (s.runIn start)

namespace Repeats

theorem pure (a : α) : Repeats engine A b i start (pure a) := fun _ hd => .pure hd

theorem throw (e : ExecutionError) : Repeats engine A b i start (throw e : Step α) :=
  fun _ _ => .throw e

theorem bind {β : Type} (hstart : Sound engine A b i start start) {s : Step α} {f : α → Step β}
    (h : Repeats engine A b i start s) (hf : ∀ a, Repeats engine A b i start (f a)) :
    Repeats engine A b i start (s >>= f) := by
  intro d hd
  have hs := h start hstart
  have ht := h d hd
  cases hr : s.runIn start with
  | error e =>
    obtain ⟨c', hc'⟩ := runIn_eq_error.mp hr
    rw [hr] at ht
    rw [runIn_bind_of_error hc']
    cases ht with
    | error ht => exact .error (bind_of_error ht)
  | ok a =>
    rw [hr] at hs ht
    obtain ⟨c', hc', hsound⟩ := hs.eq_ok
    obtain ⟨d', hd', hsound'⟩ := ht.eq_ok
    -- what comes next answers alike in all sound contexts
    rw [runIn_bind_of_ok hc', (hf a c' hsound).runIn]
    exact (hf a d' hsound').of_eq (bind_of_ok hd')

end Repeats

/-- A step beside itself that answers alike in all contexts that are sound. -/
def repeating (engine : Engine) (A : Expr → Prop) (b : Bool) (i : Nat) {start : Context}
    (hstart : Sound engine A b i start start) : StepRelation where
  rel s t := s = t ∧ Repeats engine A b i start s
  raises _ := True
  raises_of_isInternal _ := trivial
  pure a := ⟨rfl, .pure a⟩
  throw _ := ⟨rfl, .throw _⟩
  bind h hf := ⟨by rw [h.1, funext fun a => (hf a).1], h.2.bind hstart fun a => (hf a).2⟩

theorem repeats_readField (name : String) :
    Repeats engine A b i start (readField name i b) := by
  intro d hd
  have hresolve : d.resolve name = start.resolve name := by
    rw [Context.resolve, Context.resolve, hd.touched.direct, hd.touched.ambiguous,
      hd.touched.collapsed]
  rw [runIn, EStateM.run, readField_apply]
  cases hr : start.resolve name with
  | error e => exact .error (by rw [readField_apply, hresolve, hr])
  | ok table =>
    refine .ok ?_ (hd.note b)
    rw [readField_apply, hresolve, hr, hd.touched.frame]

theorem repeats_readQualified (table name : String) :
    Repeats engine A b i start (readQualified table name i b) := by
  intro d hd
  have hview : d.frame.view? table = start.frame.view? table := by rw [hd.touched.frame]
  rw [runIn, EStateM.run, readQualified_apply]
  cases hv : start.frame.view? table with
  | none => exact .error (by rw [readQualified_apply, hview, hv, hd.touched.collapsed])
  | some v =>
    by_cases hname : v.declares name = true
    · simp only [hname, if_true]
      refine .ok ?_ (hd.note b)
      rw [readQualified_apply, hview, hv]
      simp only [hname, if_true]
    · simp only [hname, Bool.false_eq_true, if_false]
      refine .error (d := d) ?_
      rw [readQualified_apply, hview, hv]
      simp only [hname, Bool.false_eq_true, if_false]

theorem repeats_readWindow (label : String) :
    Repeats engine A b i start (readWindow label i) := by
  intro d hd
  have hempty := hd.touched.sourceEmpty
  have hframe := hd.touched.frame
  rw [runIn, EStateM.run, readWindow_apply]
  by_cases h : start.sourceEmpty = true
  · rw [if_pos h]
    exact .ok (by rw [readWindow_apply, hempty, if_pos h]) hd
  · rw [if_neg h]
    cases hw : (start.frame.rows[i]?).bind (·.windows.get? label) with
    | none => exact .error (by rw [readWindow_apply, hempty, if_neg h, hframe, hw])
    | some v => exact .ok (by rw [readWindow_apply, hempty, if_neg h, hframe, hw]) hd

/-- A row in a group stays there. -/
theorem repeats_groupOf (hi : start.InGroup i) : Repeats engine A b i start (groupOf i) := by
  intro d hd
  obtain ⟨g, hg⟩ := Option.isSome_iff_exists.mp hi
  rw [runIn, EStateM.run, groupOf_of_group hg]
  exact .ok (groupOf_of_group (hd.touched.frame ▸ hg)) hd.noteAggregated

/-- A value that is remembered is the one that the expression has at the start. -/
theorem repeats_value (hA : Expr.LabelsApart A) {e : Expr} (he : A e)
    (h : Repeats engine A b i start ((e.evaluator engine).compute i b)) :
    Repeats engine A b i start ((e.evaluator engine).value engine i b) := by
  have hl := e.label?_evaluator engine
  rw [Expr.rememberedLabel?] at hl
  by_cases hr : e.isRemembered = true
  · rw [if_pos hr] at hl
    intro d hd
    have hd' : d.remembered? engine i e.label =
        (if engine.remembers then d.held? i e.label else none).or
          ((start.frame.rows[i]?).bind (·.keys.get? e.label)) := by
      rw [← hd.touched.frame]
      rfl
    -- What is held for the row is right, for the state is sound. If nothing is held, nothing was held at the
    -- start either, and the value is the key of a group or is computed in both.
    cases hheld : (if engine.remembers then d.held? i e.label else none) with
    | some v =>
      obtain ⟨hremembers, hv⟩ : engine.remembers = true ∧ d.held? i e.label = some v := by
        split at hheld
        · next hremembers => exact ⟨hremembers, hheld⟩
        · cases hheld
      rw [hheld, Option.some_or] at hd'
      rw [hd.value hremembers e he hr v hv]
      exact .ok (Evaluator.value_of_remembered hl hd' b) hd
    | none =>
      have hnone : (if engine.remembers then start.held? i e.label else none) = none := by
        split at hheld
        · next hremembers =>
          rw [if_pos hremembers]
          refine Option.eq_none_iff_forall_ne_some.mpr fun x hx => ?_
          rw [hd.kept _ _ hx] at hheld
          cases hheld
        · next hnot => rw [if_neg hnot]
      have hstart : start.remembered? engine i e.label =
          (start.frame.rows[i]?).bind (·.keys.get? e.label) :=
        (congrArg (Option.or · _) hnone).trans (Option.none_or ..)
      rw [hheld, Option.none_or] at hd'
      cases hkey : (start.frame.rows[i]?).bind (·.keys.get? e.label) with
      | some v =>
        have hvalue : ((e.evaluator engine).value engine i b).runIn start = .ok v :=
          runIn_eq_ok.mpr ⟨start, Evaluator.value_of_remembered hl (hstart.trans hkey) b⟩
        rw [hvalue]
        exact .ok (Evaluator.value_of_remembered hl (hd'.trans hkey) b) hd
      | none =>
        have hvalue := Evaluator.runIn_value_of_not_remembered hl (hstart.trans hkey) b
        have hcompute := h d hd
        rw [← hvalue] at hcompute
        have hd'' := Evaluator.value_of_not_remembered hl (hd'.trans hkey) b
        cases hx : ((e.evaluator engine).value engine i b).runIn start with
        | error err =>
          rw [hx] at hcompute
          cases hcompute with
          | error hc => exact .error (by rw [hd'', hc])
        | ok x =>
          rw [hx] at hcompute
          obtain ⟨d₁, hc, hsound⟩ := hcompute.eq_ok
          exact .ok (by rw [hd'', hc]) (hsound.remember hA he hr hx)
  · rw [if_neg hr] at hl
    rwa [Evaluator.value_of_label?_eq_none hl]

/-- The evaluation of expressions whose labels differ. -/
def repeatingSimulation (hA : Expr.Family A) (b : Bool) (hstart : Sound engine A b i start start) :
    SelfSimulation engine where
  Index := Unit
  row _ := i
  otherRow _ := i
  inAggregate _ := b
  relation _ := repeating engine A b i hstart
  admits e := A e ∧ (start.InGroup i ∨ e.AggregateFree engine.functions)
  operand h hp := ⟨hA.operand h.1 hp, h.2.imp_right fun hfree => hfree.operand hp⟩
  readField _ name := ⟨rfl, repeats_readField name⟩
  readQualified _ table name := ⟨rfl, repeats_readQualified table name⟩
  readWindow _ _ _ _ _ _ := ⟨rfl, repeats_readWindow _⟩
  call _ e name q f he hname hf := by
    let r := repeating engine A b i hstart
    refine r.call rfl (fun _ _ _ _ _ => trivial) (fun _ _ => hf) fun h hfind => ?_
    have hi : start.InGroup i := he.2.resolve_right fun hfree => by
      cases hfree with
      | intro hcallee _ =>
        have hnot := hcallee name hname
        rw [Registry.isAggregate, hfind] at hnot
        cases hnot
    exact r.bind ⟨rfl, repeats_groupOf hi⟩ fun group => r.lift fun _ _ => trivial
  value _ _ he h := ⟨rfl, repeats_value hA.apart he.1 h.2⟩

/-- An expression has the value that it has at the start, whatever else was evaluated before. -/
theorem sound_evaluate (hA : Expr.Family A) (hstart : Sound engine A b i start start) {e : Expr}
    (he : A e ∧ (start.InGroup i ∨ e.AggregateFree engine.functions)) :
    Repeats engine A b i start ((e.evaluator engine).value engine i b) :=
  ((repeatingSimulation hA b hstart).evaluate he ()).2

/-- Several expressions, each of which has the value that it has at the start, have the values that they
have alone. -/
theorem Repeats.runIn_values (hstart : Sound engine A b i start start) {es : List Expr}
    (hes : ∀ e ∈ es, Repeats engine A b i start ((e.evaluator engine).value engine i b)) :
    (Evaluator.values engine (Expr.evaluators engine es) i b).runIn start =
      es.mapM fun e => ((e.evaluator engine).value engine i b).runIn start := by
  have hmap : Evaluator.values engine (Expr.evaluators engine es) i b =
      es.mapM fun e => (e.evaluator engine).value engine i b := by
    rw [Evaluator.values, Expr.evaluators_eq_map, List.mapM_map]
    rfl
  rw [hmap]
  refine (Answers.mapM (I := fun _ d => Sound engine A b i start d) es [] hstart ?_).runIn
  intro before e after d hsplit hd
  have he : e ∈ es := by
    rw [List.nil_append] at hsplit
    exact hsplit ▸ by simp
  exact hes e he d hd

/-- Several expressions whose labels differ have the values that they have alone. -/
theorem runIn_values (hA : Expr.Family A) (hfresh : ∀ label, start.held? i label = none)
    {es : List Expr}
    (hes : ∀ e ∈ es, A e ∧ (start.InGroup i ∨ e.AggregateFree engine.functions)) :
    (Evaluator.values engine (Expr.evaluators engine es) i b).runIn start =
      es.mapM fun e => ((e.evaluator engine).value engine i b).runIn start :=
  Repeats.runIn_values (.refl hfresh) fun e he => sound_evaluate hA (.refl hfresh) (hes e he)

end Step

end TableQuery
