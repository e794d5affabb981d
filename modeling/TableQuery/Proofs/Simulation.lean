/-
Steps that answer alike.

The evaluation of an expression is put together from a few steps that look at one row: reading a
field or a window, calling a function, remembering a value. A `Simulation` is a relation between
steps that holds of these few, on one row of each side, and that is kept when steps are put together
(`StepRelation`). Then it holds of every evaluation:

* `Simulation.compute`, `Simulation.evaluate` — one expression;
* `Simulation.values`, `Simulation.holds` — several expressions, and the truth of one.

There are two such relations. `Step.Simulates R excused s t` says that `s` and `t` agree whenever
they start in contexts related by `R`: they give the same value and leave related contexts, or fail
with the same error; only where `t` fails with an excused error may `s` do anything.
`Step.Follows lost R excused s t` looks at values of `s` alone, and only as long as `s` is not lost.
-/
import TableQuery.Context.Evaluation
import TableQuery.Proofs.Answers
import TableQuery.Proofs.Operands

namespace TableQuery

namespace Step

variable {α β : Type} {R : Context → Context → Prop} {excused : ExecutionError → Prop}

/-- What a step comes to: a value or an error, and the context it leaves. -/
abbrev Outcome (α : Type) := EStateM.Result ExecutionError Context α

/-- Outcomes that are the same but for related contexts, or of which the second is excused. -/
inductive Agree (R : Context → Context → Prop) (excused : ExecutionError → Prop) :
    Outcome α → Outcome α → Prop
  | ok (a : α) {c d : Context} : R c d → Agree R excused (.ok a c) (.ok a d)
  | error (e : ExecutionError) {c d : Context} : Agree R excused (.error e c) (.error e d)
  | excused {r : Outcome α} {e : ExecutionError} {d : Context} :
      excused e → Agree R excused r (.error e d)

theorem Agree.mono {R' : Context → Context → Prop} (hR : ∀ c d, R c d → R' c d)
    {r r' : Outcome α} (h : Agree R excused r r') : Agree R' excused r r' := by
  cases h with
  | ok a h => exact .ok a (hR _ _ h)
  | error e => exact .error e
  | excused he => exact .excused he

/-- From related contexts both steps answer alike and leave related contexts. -/
def Simulates (R : Context → Context → Prop) (excused : ExecutionError → Prop) (s t : Step α) :
    Prop :=
  ∀ ⦃c d⦄, R c d → Agree R excused (s c) (t d)

theorem Simulates.pure (a : α) : Simulates R excused (pure a) (pure a) := fun _ _ h => .ok a h

theorem Simulates.throw (e : ExecutionError) :
    Simulates R excused (throw e : Step α) (throw e) := fun _ _ _ => .error e

theorem Simulates.lift (r : Except ExecutionError α) : Simulates R excused (lift r) (lift r) := by
  cases r with
  | ok a => exact .pure a
  | error e => exact .throw e

theorem Simulates.bind {s t : Step α} {f g : α → Step β} (h : Simulates R excused s t)
    (hf : ∀ a, Simulates R excused (f a) (g a)) : Simulates R excused (s >>= f) (t >>= g) := by
  intro c d hcd
  have hst := h hcd
  show Agree R excused (EStateM.bind s f c) (EStateM.bind t g d)
  rw [EStateM.bind, EStateM.bind]
  generalize s c = r at hst ⊢
  generalize t d = r' at hst ⊢
  cases hst with
  | ok a h' => exact hf a h'
  | error e => exact .error e
  | excused he => exact .excused he

/-- Whenever the first step gives a value and is not lost afterwards, the second gives the same value
or is excused. What is lost stays lost. -/
structure Follows (lost : Context → Prop) (R : Context → Context → Prop)
    (excused : ExecutionError → Prop) (s t : Step α) : Prop where
  stays : ∀ {c a c'}, lost c → s c = .ok a c' → lost c'
  follows : ∀ {c d a c'}, R c d → s c = .ok a c' →
    lost c' ∨ (∃ d', t d = .ok a d' ∧ R c' d') ∨ ∃ e d', t d = .error e d' ∧ excused e

end Step

/-- The error does not lie with the query: the engine has lost the result of a window or counted rows
wrongly. -/
def ExecutionError.isInternal : ExecutionError → Bool
  | missingWindowResult _ => true
  | rowCountMismatch .. => true
  | function _ (.resultCount ..) => true
  | _ => false

/-- A relation between steps that is kept when they are put together. Steps may only fail with some
errors, to which all that are not internal belong. -/
structure StepRelation where
  rel : ∀ {α : Type}, Step α → Step α → Prop
  raises : ExecutionError → Prop
  raises_of_isInternal : ∀ {e}, e.isInternal = false → raises e
  pure : ∀ {α : Type} (a : α), rel (pure a) (pure a)
  throw : ∀ {α : Type} {e : ExecutionError}, raises e → rel (throw e : Step α) (throw e)
  bind : ∀ {α β : Type} {s t : Step α} {f g : α → Step β}, rel s t → (∀ a, rel (f a) (g a)) →
    rel (s >>= f) (t >>= g)

namespace StepRelation

/-- Both steps agree from related contexts. -/
def simulates (R : Context → Context → Prop) (excused : ExecutionError → Prop) : StepRelation where
  rel := Step.Simulates R excused
  raises _ := True
  raises_of_isInternal _ := trivial
  pure := .pure
  throw _ := .throw _
  bind := .bind

/-- The second step follows the first. -/
def follows (lost : Context → Prop) (R : Context → Context → Prop)
    (excused : ExecutionError → Prop) : StepRelation where
  rel := Step.Follows lost R excused
  raises _ := True
  raises_of_isInternal _ := trivial
  pure a := by
    constructor
    · intro c x c' hc h
      cases h
      exact hc
    · intro c d x c' hcd h
      cases h
      exact .inr (.inl ⟨d, rfl, hcd⟩)
  throw _ := by
    constructor
    · intro c x c' hc h
      cases h
    · intro c d x c' hcd h
      cases h
  bind {α β s t f g} h hf := by
    constructor
    · intro c b c'' hc hs
      obtain ⟨a, c', hs, hnext⟩ := Step.exists_of_bind_eq_ok hs
      exact (hf a).stays (h.stays hc hs) hnext
    · intro c d b c'' hcd hs
      obtain ⟨a, c', hs, hnext⟩ := Step.exists_of_bind_eq_ok hs
      obtain hlost | ⟨d', ht, hcd'⟩ | ⟨e, d', ht, he⟩ := h.follows hcd hs
      · exact .inl ((hf a).stays hlost hnext)
      · rw [Step.bind_of_ok ht]
        exact (hf a).follows hcd' hnext
      · exact .inr (.inr ⟨e, d', Step.bind_of_error ht, he⟩)

/-- Steps that are the same. -/
def same : StepRelation where
  rel s t := s = t
  raises _ := True
  raises_of_isInternal _ := trivial
  pure _ := rfl
  throw _ := rfl
  bind h hf := by
    rw [h, funext hf]

variable (r : StepRelation) {α : Type}

theorem lift {result : Except ExecutionError α} (h : ∀ e, result = .error e → r.raises e) :
    r.rel (Step.lift result) (Step.lift result) := by
  cases result with
  | ok a => exact r.pure a
  | error e => exact r.throw (h e rfl)

/-- Operators fail with errors that are not internal. -/
theorem operation (result : Except OperationError α) :
    r.rel (Step.lift (result.mapError .operation)) (Step.lift (result.mapError .operation)) := by
  cases result with
  | ok a => exact r.pure a
  | error e => exact r.throw (r.raises_of_isInternal rfl)

theorem ite (p : Bool) {s t s' t' : Step α} (h : r.rel s t) (h' : r.rel s' t') :
    r.rel (if p then s else s') (if p then t else t') := by
  cases p
  · exact h'
  · exact h

/-- Calls are related if the arguments of functions of a single row are, and if what aggregates make of
a group is. -/
theorem call {engine other : Engine} {name : String} {q : Option Quantifier} {i j : Nat} {b b' : Bool}
    {f g : Nat → Bool → Step (List Value)} (hfunctions : other.functions = engine.functions)
    (hraises : ∀ h values e, engine.functions.find? name = some (.scalar h) →
      h values = .error e → r.raises (.function name e))
    (harguments : ∀ h, engine.functions.find? name = some (.scalar h) → r.rel (f i b) (g j b'))
    (haggregate : ∀ h, engine.functions.find? name = some (.aggregate h) →
      r.rel (Step.groupOf i >>= fun group =>
          Step.lift (Step.aggregateOver name h (fun k => f k true) q group))
        (Step.groupOf j >>= fun group =>
          Step.lift (Step.aggregateOver name h (fun k => g k true) q group))) :
    r.rel (Step.call engine name q f i b) (Step.call other name q g j b') := by
  rw [Step.call, Step.call, hfunctions]
  by_cases hall : q = some .all
  · simp only [hall, if_true]
    exact r.throw (r.raises_of_isInternal rfl)
  simp only [hall, if_false]
  cases hfind : engine.functions.find? name with
  | none => exact r.throw (r.raises_of_isInternal rfl)
  | some h =>
    cases h with
    | scalar h =>
      cases q with
      | some q => exact r.throw (r.raises_of_isInternal rfl)
      | none =>
        refine r.bind (harguments h hfind) fun values => r.lift fun e he => ?_
        cases hvalue : h values with
        | ok v =>
          rw [hvalue] at he
          cases he
        | error e =>
          rw [hvalue] at he
          cases he
          exact hraises h values e hfind hvalue
    | aggregate h => exact haggregate h hfind
    | window h => exact r.throw (r.raises_of_isInternal rfl)

end StepRelation

/-! ### The value of an evaluator -/

namespace Evaluator

theorem value_of_label?_eq_none {engine : Engine} {v : Evaluator} (h : v.label? = none) (i : Nat)
    (b : Bool) : v.value engine i b = v.compute i b := by
  rw [value, h]

/-- A remembered value is not computed again. -/
theorem value_of_remembered {engine : Engine} {v : Evaluator} {label : String} {c : Context}
    {i : Nat} {x : Value} (h : v.label? = some label)
    (hx : c.remembered? engine i label = some x) (b : Bool) :
    v.value engine i b c = .ok x c := by
  rw [value, h]
  dsimp only
  rw [Step.get_bind, hx]
  rfl

/-- A value that is not remembered is computed, and then remembered. -/
theorem value_of_not_remembered {engine : Engine} {v : Evaluator} {label : String} {c : Context}
    {i : Nat} (h : v.label? = some label) (hx : c.remembered? engine i label = none) (b : Bool) :
    v.value engine i b c =
      match v.compute i b c with
      | .ok x c' => .ok x (c'.remember engine i label x)
      | .error e c' => .error e c' := by
  rw [value, h]
  dsimp only
  rw [Step.get_bind, hx]
  show EStateM.bind (v.compute i b) _ c = _
  rw [EStateM.bind]
  cases v.compute i b c <;> rfl

theorem exists_of_value_of_not_remembered {engine : Engine} {v : Evaluator} {label : String}
    {c d : Context} {i : Nat} {b : Bool} {x : Value} (h : v.label? = some label)
    (hx : c.remembered? engine i label = none) (hs : v.value engine i b c = .ok x d) :
    ∃ c', v.compute i b c = .ok x c' ∧ d = c'.remember engine i label x := by
  rw [value_of_not_remembered h hx] at hs
  cases hcompute : v.compute i b c with
  | error e c' =>
    rw [hcompute] at hs
    cases hs
  | ok y c' =>
    rw [hcompute] at hs
    cases hs
    exact ⟨c', rfl, rfl⟩

theorem runIn_value_of_not_remembered {engine : Engine} {v : Evaluator} {label : String}
    {c : Context} {i : Nat} (h : v.label? = some label)
    (hx : c.remembered? engine i label = none) (b : Bool) :
    (v.value engine i b).runIn c = (v.compute i b).runIn c := by
  rw [Step.runIn, Step.runIn, EStateM.run, EStateM.run, value_of_not_remembered h hx]
  cases v.compute i b c <;> rfl

/-- Where nothing is remembered, every value is computed. -/
theorem runIn_value_of_forgotten {engine : Engine} {v : Evaluator} {c : Context} {i : Nat}
    (h : ∀ label, c.remembered? engine i label = none) (b : Bool) :
    (v.value engine i b).runIn c = (v.compute i b).runIn c := by
  cases hlabel : v.label? with
  | none => rw [value_of_label?_eq_none hlabel]
  | some label => exact runIn_value_of_not_remembered hlabel (h label) b

end Evaluator

/-- Values are followed if they are remembered alike on both sides, or else if their computations are. -/
theorem Step.Follows.value {engine : Engine} {lost : Context → Prop} {R : Context → Context → Prop}
    {excused : ExecutionError → Prop} {v : Evaluator} {i j : Nat} {b b' : Bool}
    (h : Follows lost R excused (v.compute i b) (v.compute j b'))
    (hlost : ∀ {c} label x, lost c → lost (c.remember engine i label x))
    (hsame : ∀ {c d label}, v.label? = some label → R c d →
      d.remembered? engine j label = c.remembered? engine i label)
    (hremember : ∀ {c d label} x, v.label? = some label → R c d →
      R (c.remember engine i label x) (d.remember engine j label x)) :
    Follows lost R excused (v.value engine i b) (v.value engine j b') := by
  cases hl : v.label? with
  | none =>
    rw [Evaluator.value_of_label?_eq_none hl, Evaluator.value_of_label?_eq_none hl]
    exact h
  | some label =>
    constructor
    · intro c x c' hc hs
      cases hx : c.remembered? engine i label with
      | some y =>
        rw [Evaluator.value_of_remembered hl hx] at hs
        cases hs
        exact hc
      | none =>
        obtain ⟨c₁, hcompute, rfl⟩ := Evaluator.exists_of_value_of_not_remembered hl hx hs
        exact hlost label x (h.stays hc hcompute)
    · intro c d x c' hcd hs
      cases hx : c.remembered? engine i label with
      | some y =>
        rw [Evaluator.value_of_remembered hl hx] at hs
        cases hs
        have hy := (hsame hl hcd).trans hx
        exact .inr (.inl ⟨d, Evaluator.value_of_remembered hl hy b', hcd⟩)
      | none =>
        -- nothing is remembered on the other side either, where the value is computed as well
        have hy := (hsame hl hcd).trans hx
        obtain ⟨c₁, hcompute, rfl⟩ := Evaluator.exists_of_value_of_not_remembered hl hx hs
        rw [Evaluator.value_of_not_remembered hl hy]
        obtain hc₁ | ⟨d₁, hd, hcd₁⟩ | ⟨e, d₁, hd, he⟩ := h.follows hcd hcompute
        · exact .inl (hlost label x hc₁)
        · rw [hd]
          exact .inr (.inl ⟨_, rfl, hremember x hl hcd₁⟩)
        · rw [hd]
          exact .inr (.inr ⟨e, d₁, rfl, he⟩)

/-! ### Expressions -/

/-- The name of the function that an expression calls. -/
def Expr.callee? : Expr → Option String
  | .call name _ _ => some name
  | .callStar name => some name
  | _ => none

/-- The value of the expression is put together from the values of its operands, whatever the row and its
context are. -/
def Expr.isComposed : Expr → Bool
  | .field _ | .qualified .. | .call .. | .callStar _ | .window .. => false
  | _ => true

namespace StepRelation

variable (r : StepRelation) (engine other : Engine) (i j : Nat) (b b' : Bool)

/-- What an expression comes to in a row of each side is related, remembered or not. Either row may be looked
at for an aggregate. -/
structure Relates (e : Expr) : Prop where
  compute : r.rel ((e.evaluator engine).compute i b) ((e.evaluator other).compute j b')
  value : r.rel ((e.evaluator engine).value engine i b) ((e.evaluator other).value other j b')

variable {engine other i j b b'}

theorem values {es : List Expr} (h : ∀ e ∈ es, r.rel ((e.evaluator engine).value engine i b)
    ((e.evaluator other).value other j b')) :
    r.rel (Evaluator.values engine (Expr.evaluators engine es) i b)
      (Evaluator.values other (Expr.evaluators other es) j b') := by
  rw [Evaluator.values, Evaluator.values]
  induction es with
  | nil =>
    rw [Expr.evaluators, Expr.evaluators]
    exact r.pure []
  | cons e es ih =>
    rw [Expr.evaluators, Expr.evaluators, List.mapM_cons, List.mapM_cons]
    refine r.bind (h e List.mem_cons_self) fun a => ?_
    refine r.bind (ih fun e' he' => h e' (List.mem_cons_of_mem e he')) fun as => ?_
    exact r.pure _

theorem membership {es : List Expr} (h : ∀ e ∈ es, r.Relates engine other i j b b' e) (y : Value)
    (negated sawNull : Bool) :
    r.rel (Evaluator.membership engine y negated i b (Expr.evaluators engine es) sawNull)
      (Evaluator.membership other y negated j b' (Expr.evaluators other es) sawNull) := by
  induction es generalizing sawNull with
  | nil =>
    rw [Expr.evaluators, Expr.evaluators]
    exact r.pure _
  | cons e es ih =>
    have hes := ih fun e' he' => h e' (List.mem_cons_of_mem e he')
    rw [Expr.evaluators, Expr.evaluators]
    simp only [Evaluator.membership]
    refine r.bind (h e List.mem_cons_self).value fun z => ?_
    split
    · exact hes true
    · split
      · exact r.pure _
      · exact hes sawNull

theorem branches (base : Option Value) : ∀ (branches : Branches),
    (∀ e ∈ branches.operands, r.Relates engine other i j b b' e) →
    r.rel ((Expr.branchEvaluators engine branches).value engine base i b)
      ((Expr.branchEvaluators other branches).value other base j b')
  | .finish, _ => by
    rw [Expr.branchEvaluators, Expr.branchEvaluators]
    exact r.pure _
  | .otherwise e, h => by
    rw [Expr.branchEvaluators, Expr.branchEvaluators]
    exact (h e (by simp [Branches.operands])).value
  | .branch c d rest, h => by
    have hresult := (h d (by simp [Branches.operands])).value
    have hrest := branches base rest fun e he => h e (by simp [Branches.operands, he])
    rw [Expr.branchEvaluators, Expr.branchEvaluators]
    simp only [BranchEvaluators.value, BranchEvaluators.first]
    refine r.bind (h c (by simp [Branches.operands])).value fun z => ?_
    exact r.ite _ hresult hrest

/-- What is put together from operands is related if they are. -/
theorem compute {e : Expr} (he : e.isComposed = true)
    (h : ∀ p ∈ e.operands, r.Relates engine other i j b b' p) :
    r.rel ((e.evaluator engine).compute i b) ((e.evaluator other).compute j b') := by
  cases e with
  | literal v =>
    rw [Expr.evaluator, Expr.evaluator]
    exact r.pure v
  | binary op left right =>
    rw [Expr.evaluator, Expr.evaluator]
    refine r.bind (h left (by simp [Expr.operands])).value fun y => ?_
    exact r.bind (h right (by simp [Expr.operands])).value fun z => r.operation _
  | unary op e =>
    rw [Expr.evaluator, Expr.evaluator]
    exact r.bind (h e (by simp [Expr.operands])).value fun y => r.operation _
  | isNull e negated =>
    rw [Expr.evaluator, Expr.evaluator]
    exact r.bind (h e (by simp [Expr.operands])).value fun y => r.pure _
  | isIn e items negated =>
    rw [Expr.evaluator, Expr.evaluator]
    refine r.bind (h e (by simp [Expr.operands])).value fun y => ?_
    split
    · exact r.pure _
    · exact r.membership (fun p hp => h p (List.mem_cons_of_mem e hp)) y negated false
  | isLike kind e p negated =>
    rw [Expr.evaluator, Expr.evaluator]
    refine r.bind (h e (by simp [Expr.operands])).value fun y => ?_
    refine r.bind (h p (by simp [Expr.operands])).value fun z => ?_
    refine r.bind (r.operation _) fun m => ?_
    split <;> exact r.pure _
  | cast e target =>
    rw [Expr.evaluator, Expr.evaluator]
    exact r.bind (h e (by simp [Expr.operands])).value fun y => r.operation _
  | searchedCase branches =>
    rw [Expr.evaluator, Expr.evaluator]
    exact r.branches none branches h
  | simpleCase base branches =>
    rw [Expr.evaluator, Expr.evaluator]
    refine r.bind (h base (by simp [Expr.operands])).value fun y => ?_
    exact r.branches (some y) branches fun p hp => h p (List.mem_cons_of_mem base hp)
  | index base position =>
    rw [Expr.evaluator, Expr.evaluator]
    refine r.bind (h base (by simp [Expr.operands])).value fun y => ?_
    exact r.bind (h position (by simp [Expr.operands])).value fun z => r.operation _
  | aliased e name =>
    rw [Expr.evaluator, Expr.evaluator]
    exact (h e (by simp [Expr.operands])).value
  | paren e =>
    rw [Expr.evaluator, Expr.evaluator]
    exact (h e (by simp [Expr.operands])).compute
  | field | qualified | call | callStar | window => cases he

end StepRelation

/-- A relation between the steps of two evaluations. An index names the rows that are looked at on
both sides, and tells whether this is for an aggregate. -/
structure Simulation (engine other : Engine) where
  Index : Type
  row : Index → Nat
  otherRow : Index → Nat
  inAggregate : Index → Bool
  relation : Index → StepRelation
  /-- The expressions that may be evaluated. -/
  admits : Expr → Prop
  operand : ∀ {e p}, admits e → p ∈ e.operands → admits p
  readField : ∀ x name, (relation x).rel (Step.readField name (row x) (inAggregate x))
    (Step.readField name (otherRow x) (inAggregate x))
  readQualified : ∀ x table name, (relation x).rel
    (Step.readQualified table name (row x) (inAggregate x))
    (Step.readQualified table name (otherRow x) (inAggregate x))
  readWindow : ∀ x {f p o extent}, admits (.window f p o extent) → (relation x).rel
    (Step.readWindow (Expr.window f p o extent).label (row x))
    (Step.readWindow (Expr.window f p o extent).label (otherRow x))
  call : ∀ x {e name} q {f g : Nat → Bool → Step (List Value)}, admits e → e.callee? = some name →
    (∀ y, (relation y).rel (f (row y) (inAggregate y)) (g (otherRow y) (inAggregate y))) →
    (relation x).rel (Step.call engine name q f (row x) (inAggregate x))
      (Step.call other name q g (otherRow x) (inAggregate x))
  value : ∀ x {e}, admits e →
    (relation x).rel ((e.evaluator engine).compute (row x) (inAggregate x))
      ((e.evaluator other).compute (otherRow x) (inAggregate x)) →
    (relation x).rel ((e.evaluator engine).value engine (row x) (inAggregate x))
      ((e.evaluator other).value other (otherRow x) (inAggregate x))

namespace Simulation

variable {engine other : Engine} (S : Simulation engine other)

/-- The steps of both sides that look at a row are related. -/
abbrev Respects {α : Type} (s t : Nat → Bool → Step α) : Prop :=
  ∀ x, (S.relation x).rel (s (S.row x) (S.inAggregate x)) (t (S.otherRow x) (S.inAggregate x))

/-- The values of an expression on both sides are related. -/
abbrev RespectsValue (e : Expr) : Prop :=
  S.Respects ((e.evaluator engine).value engine) ((e.evaluator other).value other)

/-- What an expression comes to on both sides is related, apart from remembering it. -/
theorem compute {e : Expr} (he : S.admits e) :
    S.Respects (e.evaluator engine).compute (e.evaluator other).compute := by
  induction e using Expr.operands_induction with
  | step e ih =>
  intro x
  have hoperands : ∀ p ∈ e.operands, ∀ x, (S.relation x).Relates engine other (S.row x) (S.otherRow x)
      (S.inAggregate x) (S.inAggregate x) p := fun p hp x =>
    have hp' := S.operand he hp
    ⟨ih p hp hp' x, S.value x hp' (ih p hp hp' x)⟩
  cases e with
  | field name =>
    rw [Expr.evaluator, Expr.evaluator]
    exact S.readField x name
  | qualified table name =>
    rw [Expr.evaluator, Expr.evaluator]
    exact S.readQualified x table name
  | call name q arguments =>
    rw [Expr.evaluator, Expr.evaluator]
    exact S.call x q he rfl fun y => (S.relation y).values fun p hp => (hoperands p hp y).value
  | callStar name =>
    rw [Expr.evaluator, Expr.evaluator]
    exact S.call x none he rfl (f := fun _ _ => pure [Value.ofNat 1])
      (g := fun _ _ => pure [Value.ofNat 1]) fun y => (S.relation y).pure _
  | window f p o extent =>
    rw [Expr.evaluator, Expr.evaluator]
    exact S.readWindow x he
  | _ => exact (S.relation x).compute rfl fun p hp => hoperands p hp x

/-- The values of an expression on both sides are related. -/
theorem evaluate {e : Expr} (he : S.admits e) : S.RespectsValue e :=
  fun x => S.value x he (S.compute he x)

/-- The values of several expressions are related. -/
theorem values {es : List Expr} (hes : ∀ e ∈ es, S.admits e) :
    S.Respects (Evaluator.values engine (Expr.evaluators engine es))
      (Evaluator.values other (Expr.evaluators other es)) :=
  fun x => (S.relation x).values fun e he => S.evaluate (hes e he) x

/-- The truth of an expression is related. -/
theorem holds {e : Expr} (he : S.admits e) {x : S.Index} (hx : S.inAggregate x = false) :
    (S.relation x).rel ((e.evaluator engine).holds engine (S.row x))
      ((e.evaluator other).holds other (S.otherRow x)) := by
  rw [Evaluator.holds, Evaluator.holds]
  have hvalue := S.evaluate he x
  rw [hx] at hvalue
  exact (S.relation x).bind hvalue fun y => (S.relation x).pure _

end Simulation

/-! ### One engine -/

/-- A relation between the steps of an evaluation in different rows. The arguments of an aggregate
are evaluated in contexts of their own, where they are the same on both sides. -/
structure SelfSimulation (engine : Engine) where
  Index : Type
  row : Index → Nat
  otherRow : Index → Nat
  inAggregate : Index → Bool
  relation : Index → StepRelation
  /-- The expressions that may be evaluated. -/
  admits : Expr → Prop
  operand : ∀ {e p}, admits e → p ∈ e.operands → admits p
  readField : ∀ x name, (relation x).rel (Step.readField name (row x) (inAggregate x))
    (Step.readField name (otherRow x) (inAggregate x))
  readQualified : ∀ x table name, (relation x).rel
    (Step.readQualified table name (row x) (inAggregate x))
    (Step.readQualified table name (otherRow x) (inAggregate x))
  readWindow : ∀ x {f p o extent}, admits (.window f p o extent) → (relation x).rel
    (Step.readWindow (Expr.window f p o extent).label (row x))
    (Step.readWindow (Expr.window f p o extent).label (otherRow x))
  call : ∀ x {e name} q {f : Nat → Bool → Step (List Value)}, admits e → e.callee? = some name →
    (relation x).rel (f (row x) (inAggregate x)) (f (otherRow x) (inAggregate x)) →
    (relation x).rel (Step.call engine name q f (row x) (inAggregate x))
      (Step.call engine name q f (otherRow x) (inAggregate x))
  value : ∀ x {e}, admits e →
    (relation x).rel ((e.evaluator engine).compute (row x) (inAggregate x))
      ((e.evaluator engine).compute (otherRow x) (inAggregate x)) →
    (relation x).rel ((e.evaluator engine).value engine (row x) (inAggregate x))
      ((e.evaluator engine).value engine (otherRow x) (inAggregate x))

namespace SelfSimulation

variable {engine : Engine} (S : SelfSimulation engine)

/-- With indices at which both sides are the same step, one side can stand for another engine. -/
def simulation : Simulation engine engine where
  Index := Nat × Bool ⊕ S.Index
  row := Sum.elim Prod.fst S.row
  otherRow := Sum.elim Prod.fst S.otherRow
  inAggregate := Sum.elim Prod.snd S.inAggregate
  relation := Sum.elim (fun _ => .same) S.relation
  admits := S.admits
  operand := S.operand
  readField
    | .inl _, _ => rfl
    | .inr x, name => S.readField x name
  readQualified
    | .inl _, _, _ => rfl
    | .inr x, table, name => S.readQualified x table name
  readWindow x f p o extent h := by
    cases x with
    | inl x => rfl
    | inr x => exact S.readWindow x h
  call x e name q f g he hname hf := by
    obtain rfl : f = g := by
      funext i b
      exact hf (.inl (i, b))
    cases x with
    | inl x => rfl
    | inr x => exact S.call x q he hname (hf (.inr x))
  value x e he h := by
    cases x with
    | inl x => rfl
    | inr x => exact S.value x he h

theorem evaluate {e : Expr} (he : S.admits e) (x : S.Index) :
    (S.relation x).rel ((e.evaluator engine).value engine (S.row x) (S.inAggregate x))
      ((e.evaluator engine).value engine (S.otherRow x) (S.inAggregate x)) :=
  S.simulation.evaluate he (.inr x)

theorem values {es : List Expr} (hes : ∀ e ∈ es, S.admits e) (x : S.Index) :
    (S.relation x).rel
      (Evaluator.values engine (Expr.evaluators engine es) (S.row x) (S.inAggregate x))
      (Evaluator.values engine (Expr.evaluators engine es) (S.otherRow x) (S.inAggregate x)) :=
  S.simulation.values hes (.inr x)

theorem holds {e : Expr} (he : S.admits e) {x : S.Index} (hx : S.inAggregate x = false) :
    (S.relation x).rel ((e.evaluator engine).holds engine (S.row x))
      ((e.evaluator engine).holds engine (S.otherRow x)) :=
  S.simulation.holds he (x := .inr x) hx

end SelfSimulation

end TableQuery
