/-
An equality of a field of either side.

When the condition of a join is such an equality, rows can be found by their keys. This is right
because the condition, tried on a pair of rows, is only true when the two cells are equal, provided
that nothing is kept under its label.

* `Context.Reads` — an expression is a field whose cell in a row is known;
* `Step.equal_of_equalityKeys?` — the condition is only true of equal keys.
-/
import TableQuery.Proofs.Joined
import TableQuery.Proofs.Locality
import TableQuery.Proofs.ValueOrder

namespace TableQuery

/-! ### Fields -/

theorem Expr.compute_evaluator_body (engine : Engine) (e : Expr) :
    (e.evaluator engine).compute = (e.body.evaluator engine).compute := by
  induction e using Expr.operands_induction with
  | step e ih =>
  cases e with
  | paren e =>
    rw [Expr.evaluator]
    exact ih e (by simp [Expr.operands])
  | _ => rfl

/-- Parentheses call no function. -/
theorem Expr.AggregateFree.of_body {r : Registry} {e : Expr} (h : e.body.AggregateFree r) :
    e.AggregateFree r := by
  induction e using Expr.operands_induction with
  | step e ih =>
  cases e with
  | paren e =>
    refine .intro (fun name hname => by cases hname) fun p hp => ?_
    obtain rfl := List.mem_singleton.mp hp
    exact ih p (by simp [Expr.operands]) h
  | _ => exact h

theorem Expr.value_of_body_field (engine : Engine) {e : Expr} {name : String}
    (h : e.body = .field name) : (e.evaluator engine).value engine = Step.readField name := by
  have hlabel : (e.evaluator engine).label? = none := by
    rw [Expr.label?_evaluator, Expr.rememberedLabel?, Expr.isRemembered, h]
    rfl
  funext i b
  rw [Evaluator.value_of_label?_eq_none hlabel, Expr.compute_evaluator_body, h, Expr.evaluator]

theorem Expr.value_of_body_qualified (engine : Engine) {e : Expr} {table name : String}
    (h : e.body = .qualified table name) :
    (e.evaluator engine).value engine = Step.readQualified table name := by
  have hlabel : (e.evaluator engine).label? = none := by
    rw [Expr.label?_evaluator, Expr.rememberedLabel?, Expr.isRemembered, h]
    rfl
  funext i b
  rw [Evaluator.value_of_label?_eq_none hlabel, Expr.compute_evaluator_body, h, Expr.evaluator]

namespace Context

variable {engine : Engine} {c : Context} {e : Expr} {table : String} {right : View}
  {aliases : List String} {o : FieldOwner} {i j : Nat}

/-- The expression has the value in a row, and nothing is noted but a plain column. -/
def Reads (engine : Engine) (c : Context) (e : Expr) (i : Nat) (x : Value) : Prop :=
  ∀ saw, (e.evaluator engine).value engine i false { c with sawPlainColumn := saw } =
    .ok x { c with sawPlainColumn := true }

/-- The cell of a field in a row. -/
def cell (c : Context) (o : FieldOwner) (i : Nat) : Value :=
  ((c.frame.view? o.table).map (·.value i o.name)).getD .null

theorem reads_of_direct (h : e.body = .field o.name) (ho : c.direct.get? o.name = some o.table)
    (i : Nat) : c.Reads engine e i (c.cell o i) := by
  intro saw
  have hresolve : resolve { c with sawPlainColumn := saw } o.name = .ok o.table := by
    rw [resolve]
    simp only [ho]
  rw [Expr.value_of_body_field engine h, Step.readField_apply, hresolve]
  rfl

theorem reads_of_declares (h : e.body = .qualified o.table o.name) {v : View}
    (hv : c.frame.view? o.table = some v) (hdeclares : v.declares o.name = true) (i : Nat) :
    c.Reads engine e i (c.cell o i) := by
  intro saw
  have hview : Frame.view? (Context.frame { c with sawPlainColumn := saw }) o.table = some v := hv
  rw [Expr.value_of_body_qualified engine h, Step.readQualified_apply, hview, cell, hv]
  simp only [hdeclares, if_true]
  rfl

/-- The field that an expression is, and how it was found. -/
theorem fieldOwner?_eq_some (h : c.fieldOwner? e table right = some o) :
    e.body = .qualified o.table o.name ∨ e.body = .field o.name ∧
      (c.knows o.name = false ∧ right.declares o.name = true ∧ o.table = table ∨
        right.declares o.name = false ∧ c.direct.get? o.name = some o.table) := by
  rw [fieldOwner?] at h
  split at h
  · cases h
    exact .inl ‹_›
  · rename_i name hbody
    refine .inr ?_
    split at h
    · cases h
    · cases h
      exact ⟨hbody, .inl ⟨‹_›, ‹_›, rfl⟩⟩
    · rename_i hdeclares
      obtain ⟨owner, howner, rfl⟩ := Option.map_eq_some_iff.mp h
      exact ⟨hbody, .inr ⟨hdeclares, howner⟩⟩
    · cases h
  · cases h

theorem aggregateFree_of_fieldOwner? (r : Registry) (h : c.fieldOwner? e table right = some o) :
    e.AggregateFree r := by
  refine .of_body ?_
  obtain hbody | ⟨hbody, -⟩ := fieldOwner?_eq_some h
  · exact hbody ▸ .of_qualified r _ _
  · exact hbody ▸ .of_field r _

theorem direct_joined (c : Context) (table : String) (right : View) (pairs : List RowPair) :
    (c.joined table right pairs).direct = (c.registerFields table right.fields).direct := rfl

/-- The view of the left side in a row of pairs. -/
theorem cell_joined_left (right : View) (hc : c.Aligned) (hi : i < c.size) (hne : o.table ≠ table)
    (j : Option Nat) :
    (c.joined table right [(i, j)]).cell o 0 = c.cell o i := by
  have hsame : Frame.SameRow 0 i (c.frame.take [i]) c.frame :=
    Frame.SameRow.take hc.frame (fun p hp => List.mem_singleton.mp hp ▸ hi) rfl
  have hview : (c.joined table right [(i, j)]).frame.view? o.table =
      (c.frame.take [i]).view? o.table := by
    have hfalse : (o.table == table) = false := by simpa using hne
    show ((c.frame.take [i]).push table _).view? o.table = _
    rw [Frame.view?_push, hfalse]
    simp
  rw [cell, hview, hsame.cells, cell]

/-- The view of the right side in a row of pairs. -/
theorem view?_joined_right (right : View) (h : c.frame.view? table = none) (pairs : List RowPair) :
    (c.joined table right pairs).frame.view? table = some (right.paired pairs) := by
  show ((c.frame.take _).push table _).view? table = _
  rw [Frame.view?_push, Frame.view?_take, h]
  simp

/-- The sides of the equality that a condition is. -/
theorem equalityKeys?_eq_some {on key : Expr} {field : String}
    (h : c.equalityKeys? on aliases table right = some (key, field)) :
    ∃ other o o', (on.body = .binary .eq key other ∨ on.body = .binary .eq other key) ∧
      (c.fieldOwner? key table right = some o ∧ o.table ≠ table ∧
        c.isLeftField aliases o = true) ∧
      c.fieldOwner? other table right = some o' ∧ o'.table = table ∧ o'.name = field := by
  rw [equalityKeys?] at h
  split at h
  · rename_i l r hbody
    split at h
    · rename_i a b ha hb
      split at h
      · cases h
      · rename_i hne
        split at h
        · rename_i hcase
          obtain ⟨htable, hleft⟩ : a.table = table ∧ c.isLeftField aliases b = true := by
            simpa using hcase
          cases h
          exact ⟨l, b, a, .inr hbody, ⟨hb, htable ▸ Ne.symm hne, hleft⟩, ha, htable, rfl⟩
        · split at h
          · rename_i hcase
            obtain ⟨htable, hleft⟩ : b.table = table ∧ c.isLeftField aliases a = true := by
              simpa using hcase
            cases h
            exact ⟨r, a, b, .inl hbody, ⟨ha, htable ▸ hne, hleft⟩, hb, htable, rfl⟩
          · cases h
    · cases h
  · cases h

/-- A field of the left side has the same value in its row and in a pair with that row. -/
theorem reads_left (engine : Engine) (hown : c.fieldOwner? e table right = some o) (hne : o.table ≠ table)
    (hleft : c.isLeftField aliases o = true) :
    (∀ i, c.Reads engine e i (c.cell o i)) ∧
      (c.Aligned → ∀ i < c.size, ∀ j,
        (c.joined table right [(i, j)]).Reads engine e 0 (c.cell o i)) := by
  obtain ⟨-, hview⟩ : aliases.contains o.table = true ∧
      (c.frame.view? o.table).any (·.declares o.name) = true := by
    simpa [isLeftField] using hleft
  obtain ⟨v, hv, hdeclares⟩ := (Option.any_eq_true _ _).mp hview
  obtain hbody | ⟨hbody, ⟨-, -, htable⟩ | ⟨hnot, hdirect⟩⟩ := fieldOwner?_eq_some hown
  · refine ⟨fun i => reads_of_declares hbody hv hdeclares i, fun hc i hi j => ?_⟩
    rw [← cell_joined_left right hc hi hne j]
    have hv' : (c.joined table right [(i, j)]).frame.view? o.table = some (v.take [i]) := by
      have hfalse : (o.table == table) = false := by simpa using hne
      show ((c.frame.take [i]).push table _).view? o.table = _
      rw [Frame.view?_push, Frame.view?_take, hv, hfalse]
      rfl
    exact reads_of_declares hbody hv' hdeclares 0
  · exact absurd htable hne
  · refine ⟨fun i => reads_of_direct hbody hdirect i, fun hc i hi j => ?_⟩
    rw [← cell_joined_left right hc hi hne j]
    refine reads_of_direct hbody ?_ 0
    have hmem : o.name ∉ right.fields := by simpa [View.declares] using hnot
    rw [direct_joined, (get?_registerFields_of_notMem hmem).1, hdirect]

/-- A field of the right side has in a pair the value of its row, or else there is no such field. -/
theorem reads_right (engine : Engine) (i : Nat) (hown : c.fieldOwner? e table right = some o) (htable : o.table = table)
    (halias : c.frame.view? table = none) (hj : j < right.size) :
    (c.joined table right [(i, some j)]).Reads engine e 0 (right.value j o.name) ∨
      ∀ saw, ∃ error d, (e.evaluator engine).value engine 0 false
        { c.joined table right [(i, some j)] with sawPlainColumn := saw } = .error error d := by
  have hview := view?_joined_right right halias [(i, some j)]
  have hcell : (c.joined table right [(i, some j)]).cell o 0 = right.value j o.name := by
    rw [cell, htable, hview]
    exact View.value_paired rfl hj o.name
  rw [← hcell]
  obtain hbody | ⟨hbody, hfield⟩ := fieldOwner?_eq_some hown
  · cases hdeclares : (right.paired [(i, some j)]).declares o.name with
    | true =>
      refine .inl (reads_of_declares hbody ?_ hdeclares 0)
      rw [htable]
      exact hview
    | false =>
      -- the alias is that of the new view, which does not declare the field
      refine .inr fun saw => ⟨.unknownTableField o.table o.name,
        { c.joined table right [(i, some j)] with sawPlainColumn := saw }, ?_⟩
      have hview' : Frame.view? (Context.frame
          { c.joined table right [(i, some j)] with sawPlainColumn := saw }) o.table =
          some (right.paired [(i, some j)]) := by
        rw [htable]
        exact hview
      rw [Expr.value_of_body_qualified engine hbody, Step.readQualified_apply, hview']
      simp only [hdeclares, Bool.false_eq_true, if_false]
  · refine .inl (reads_of_direct hbody ?_ 0)
    rw [direct_joined]
    obtain ⟨hnew, hdeclares, -⟩ | ⟨hnot, hdirect⟩ := hfield
    · rw [htable]
      exact get?_registerFields_of_new (by simpa [View.declares] using hdeclares) hnew
    · rw [htable] at hdirect ⊢
      exact get?_registerFields_of_direct hdirect right.fields

end Context

namespace Step

variable {engine : Engine} {c : Context} {table : String} {right : View} {on l r : Expr}

/-- An equality that is not remembered is worked out from the values of its sides. -/
theorem holds_of_equality (hbody : on.body = .binary .eq l r) {i : Nat}
    (hmemo : c.remembered? engine i on.label = none) :
    ((on.evaluator engine).holds engine i).runIn c =
      ((do
        let x ← (l.evaluator engine).value engine i false
        let y ← (r.evaluator engine).value engine i false
        Step.lift ((BinaryOperator.eq.apply x y).mapError .operation) : Step Value).runIn c).map
        fun z => z.truth? == some true := by
  have hlabel : (on.evaluator engine).label? = some on.label := by
    rw [Expr.label?_evaluator, Expr.rememberedLabel?, Expr.isRemembered, hbody]
    rfl
  rw [Evaluator.holds, runIn_bind_pure, Evaluator.runIn_value_of_not_remembered hlabel hmemo,
    Expr.compute_evaluator_body, hbody, Expr.evaluator]

/-- An equality of two cells is only true when they are equal. -/
theorem equal_of_holds (hbody : on.body = .binary .eq l r) {i : Nat}
    (hmemo : c.remembered? engine i on.label = none) {x y : Value} (hx : c.Reads engine l i x)
    (hy : c.Reads engine r i y)
    (h : ((on.evaluator engine).holds engine i).runIn c = .ok true) : x.equal y = true := by
  rw [holds_of_equality hbody hmemo] at h
  rw [runIn_bind_of_ok (hx c.sawPlainColumn), runIn_bind_of_ok (hy true), runIn_lift] at h
  rw [BinaryOperator.apply] at h
  · split at h
    · cases h
    · have htrue : (Value.boolean (x.equal y)).truth? == some true := Except.ok.inj h
      simpa [Value.truth?] using htrue
  · exact BinaryOperator.noConfusion
  · exact BinaryOperator.noConfusion

/-- Nothing is remembered in a pair of rows, unless the left row has a key under the label. -/
theorem remembered?_joined (engine : Engine) (table : String) (right : View) {pairs : List RowPair}
    {k i : Nat} {j : Option Nat} {label : String} (hk : pairs[k]? = some (i, j)) (hi : i < c.size)
    (h : ∀ r ∈ c.frame.rows, r.keys.get? label = none) :
    (c.joined table right pairs).remembered? engine k label = none := by
  have hrow : (c.joined table right pairs).frame.rows[k]? = c.frame.rows[i]? :=
    c.frame.getElem?_rows_take (by rw [List.getElem?_map, hk]; rfl) hi
  have hklt : k < pairs.length := (List.getElem?_eq_some_iff.mp hk).1
  have hmemo : (c.joined table right pairs).memo[k]? = some .empty := by
    simp [Context.joined, Context.replaceFrame, hklt]
  have hkeys : (c.frame.rows[i]?).bind (·.keys.get? label) = none := by
    cases hr : c.frame.rows[i]? with
    | none => rfl
    | some r => exact h r (Array.mem_of_getElem? hr)
  rw [Context.remembered?, hrow, hmemo, hkeys]
  cases engine.remembers <;> rfl

/-- When the condition equates a field of either side, it is only true of pairs of equal cells. -/
theorem equal_of_equalityKeys? {aliases : List String} {key : Expr} {field : String}
    {truth : Nat → Nat → Bool} (hc : c.Aligned) (halias : c.frame.view? table = none)
    (hkeys : c.equalityKeys? on aliases table right = some (key, field))
    (hfree : ∀ r ∈ c.frame.rows, r.keys.get? on.label = none)
    (htruth : ∀ i < c.size, ∀ j < right.size,
      ((on.evaluator engine).holds engine 0).runIn (c.joined table right [(i, some j)]) =
        .ok (truth i j)) :
    ∃ keyOf : Nat → Value, (∀ i, c.Reads engine key i (keyOf i)) ∧
      ∀ i < c.size, ∀ j < right.size, truth i j = true →
        (keyOf i).equal (right.value j field) = true := by
  obtain ⟨other, o, o', hbody, ⟨hown, hne, hleft⟩, hown', htable, rfl⟩ :=
    Context.equalityKeys?_eq_some hkeys
  obtain ⟨hreads, hreads'⟩ := Context.reads_left engine hown hne hleft
  refine ⟨c.cell o, hreads, fun i hi j hj ht => ?_⟩
  have hmemo := remembered?_joined engine table right (show [(i, some j)][0]? = _ from rfl) hi hfree
  have hholds := ht ▸ htruth i hi j hj
  have hkey := hreads' hc i hi (some j)
  -- a field that the right side lacks would have been an error
  obtain hright | herror := Context.reads_right engine i hown' htable halias hj
  · obtain hbody | hbody := hbody
    · exact equal_of_holds hbody hmemo hkey hright hholds
    · rw [Value.equal_comm]
      exact equal_of_holds hbody hmemo hright hkey hholds
  · obtain hbody | hbody := hbody <;> rw [holds_of_equality hbody hmemo] at hholds
    · obtain ⟨error, d, herror⟩ := herror true
      rw [runIn_bind_of_ok (hkey (c.joined table right [(i, some j)]).sawPlainColumn),
        runIn_bind_of_error herror] at hholds
      cases hholds
    · obtain ⟨error, d, herror⟩ := herror (c.joined table right [(i, some j)]).sawPlainColumn
      rw [runIn_bind_of_error herror] at hholds
      cases hholds

end Step

end TableQuery
