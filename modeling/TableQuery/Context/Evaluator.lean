/-
What is done to evaluate an expression.

An evaluator computes a value in a row. If it has a label, the value is remembered for its row under
that label, and what is remembered is not computed again (`Evaluator.value`); this relies on
expressions with the same label having the same value.

A call of an aggregate function looks at all rows of the group of its row. Without groups the first
such call turns all rows into one (`Step.groupOf`).
-/
import TableQuery.Context.Basic

namespace TableQuery

/-- How an expression is evaluated. -/
structure Evaluator where
  /-- The label under which values are remembered, if they are. -/
  label? : Option String
  /-- Computes the value in a row. The flag tells that it is part of an argument of an aggregate.
  Values of other expressions may be remembered on the way. -/
  compute : Nat → Bool → Step Value

namespace Evaluator

/-- The value in a row: the one remembered, or else the computed one, which is remembered from then
on. -/
def value (engine : Engine) (v : Evaluator) (row : Nat) (inAggregate : Bool) : Step Value := do
  match v.label? with
  | none => v.compute row inAggregate
  | some label =>
    match (← get).remembered? engine row label with
    | some x => return x
    | none =>
      let x ← v.compute row inAggregate
      modify fun c => c.remember engine row label x
      return x

/-- The values of several expressions in a row. -/
def values (engine : Engine) (vs : List Evaluator) (row : Nat) (inAggregate : Bool) :
    Step (List Value) :=
  vs.mapM fun v => v.value engine row inAggregate

/-- The truth of an expression in a row. -/
def holds (engine : Engine) (v : Evaluator) (row : Nat) : Step Bool := do
  return (← v.value engine row false).truth? == some true

/-- Whether a value equals one of the items. When none does, but one was Null, it is unknown. -/
def membership (engine : Engine) (x : Value) (negated : Bool) (row : Nat) (inAggregate : Bool) :
    List Evaluator → Bool → Step Value
  | [], sawNull => pure (if sawNull then .null else .boolean negated)
  | v :: vs, sawNull => do
    let y ← v.value engine row inAggregate
    if y.isNull then membership engine x negated row inAggregate vs true
    else if x.equal y then return .boolean (!negated)
    else membership engine x negated row inAggregate vs sawNull

end Evaluator

/-- Conditions with their results, and what holds in no branch. -/
structure BranchEvaluators where
  branches : List (Evaluator × Evaluator)
  otherwise : Option Evaluator

namespace BranchEvaluators

/-- The result of the first branch that applies: its condition equals the base, or is the value true
when there is no base. -/
def first (engine : Engine) (base : Option Value) (otherwise : Option Evaluator) (row : Nat)
    (inAggregate : Bool) : List (Evaluator × Evaluator) → Step Value
  | [] =>
    match otherwise with
    | none => pure .null
    | some v => v.value engine row inAggregate
  | (condition, result) :: rest => do
    let x ← condition.value engine row inAggregate
    let applies := match base, x with
      | some y, x => y.equal x
      | none, .boolean b => b
      | none, _ => false
    if applies then result.value engine row inAggregate
    else first engine base otherwise row inAggregate rest

/-- The result of the branches in a row. -/
def value (engine : Engine) (b : BranchEvaluators) (base : Option Value) (row : Nat)
    (inAggregate : Bool) : Step Value :=
  first engine base b.otherwise row inAggregate b.branches

end BranchEvaluators

namespace Step

/-- Notes that a field was read, unless it is an argument of an aggregate. -/
def notePlainColumn (inAggregate : Bool) : Step Unit :=
  modify fun c => if inAggregate then c else { c with sawPlainColumn := true }

/-- The value of a field of whichever view declares it. -/
def readField (name : String) (row : Nat) (inAggregate : Bool) : Step Value := do
  let c ← get
  let table ← lift (c.resolve name)
  notePlainColumn inAggregate
  return ((c.frame.view? table).map (·.value row name)).getD .null

/-- The value of a field of the view with the given alias. -/
def readQualified (table name : String) (row : Nat) (inAggregate : Bool) : Step Value := do
  let c ← get
  match c.frame.view? table with
  | some v =>
    if v.declares name then
      notePlainColumn inAggregate
      return v.value row name
    else throw (.unknownTableField table name)
  | none => throw (if c.collapsed then .mixedAggregate else .unknownTable table)

/-- The item of a list or the character of a text at a position from zero. Positions that are no
whole number, or that are outside, have none. -/
def itemAt (base position : Value) : Except OperationError Value :=
  match position with
  | .null => .ok .null
  | .number x =>
    if !Number.isWhole x || (Number.isNegative x && !Number.isZero x) then .ok .null
    else
      let i := Number.wholeMagnitude x
      match base with
      | .null => .ok .null
      | .list items => .ok ((items[i]?).getD .null)
      | .string s => .ok (((s.toList[i]?).map fun c => .string (String.ofList [c])).getD .null)
      | v => .error (.typeMismatch "index" .list v.kindName)
  | v => .error (.typeMismatch "index" .number v.kindName)

/-- The result of a window in a row. In place of no rows there is Null. -/
def readWindow (label : String) (row : Nat) : Step Value := do
  let c ← get
  if c.sourceEmpty then return .null
  match (c.frame.rows[row]?).bind (·.windows.get? label) with
  | some v => return v
  | none => throw (.missingWindowResult label)

/-- The group of a row. Without one, all rows become one group and only the first of them stays,
with no views of its own; a plain column read before does not allow that. -/
def groupOf (row : Nat) : Step Frame := do
  let c ← get
  match (c.frame.rows[row]?).bind (·.group) with
  | some g =>
    set { c with aggregated := true }
    return g
  | none =>
    if c.sawPlainColumn then throw .mixedAggregate
    let group := if c.sourceEmpty then c.frame.empty else c.frame
    let kept := c.frame.rows.extract 0 1
    let frame : Frame := ⟨[], kept.map fun r => { r with group := some group }⟩
    let c : Context := { c with
      frame := frame
      memo := c.memo.extract 0 frame.size
      collapsed := true
      aggregated := true }
    set c.rebuildFields
    return group

/-- The value of an aggregate function over the rows of a group, with the arguments evaluated in
each of them. -/
def aggregateOver (name : String)
    (f : Tuples → Bool → Option Quantifier → Except FunctionError Value)
    (arguments : Nat → Step (List Value)) (quantifier : Option Quantifier) (group : Frame) :
    Except ExecutionError Value := do
  let tuples ← runIn (.ofFrame group) (rows arguments)
  (f tuples.toList (group.size == 0) quantifier).mapError (.function name)

/-- The value of a call. The arguments are evaluated in a given row, inside an aggregate or not. -/
def call (engine : Engine) (name : String) (quantifier : Option Quantifier)
    (arguments : Nat → Bool → Step (List Value)) (row : Nat) (inAggregate : Bool) : Step Value := do
  if quantifier = some .all then throw .allUnsupported
  match engine.functions.find? name with
  | none => throw (.unknownFunction name)
  | some (.scalar f) =>
    match quantifier with
    | some q => throw (.unsupportedModifier name q)
    | none =>
      let values ← arguments row inAggregate
      lift ((f values).mapError (.function name))
  | some (.aggregate f) =>
    let group ← groupOf row
    lift (aggregateOver name f (fun i => arguments i true) quantifier group)
  | some (.window _) => throw (.missingOver name)

end Step

end TableQuery
