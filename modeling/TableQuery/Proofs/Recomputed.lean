/-
Values that are computed again.

An engine that remembers nothing computes a value again whenever it is asked for (`Engine.recomputing`).
In the meantime the row may have been moved, its group may have been found, and all columns may be gone
(`Context.Becomes`). The same value comes out, since every aggregate that was called has left its group
in the row; only where columns are gone there may be none.

* `Context.Revisits` — a row holds what an evaluation has looked at, as far as it can tell from the
  context that the evaluation has left;
* `Step.repeatable_evaluate`, `Step.repeatable_values`, `Step.repeatable_holds` — what an evaluation
  comes to when it is repeated.
-/
import TableQuery.Proofs.Mixing

namespace TableQuery

/-- The engine that computes every value anew. -/
def Engine.recomputing (engine : Engine) : Engine := { engine with remembers := false }

/-- No result of a window is read for the value. -/
inductive Expr.WindowFree : Expr → Prop
  | intro {e : Expr} : (∀ f p o x, e ≠ .window f p o x) → (∀ p ∈ e.operands, WindowFree p) →
      WindowFree e

theorem Expr.WindowFree.literal (v : Value) : WindowFree (.literal v) := .intro nofun nofun

theorem Expr.WindowFree.field (name : String) : WindowFree (.field name) := .intro nofun nofun

theorem Expr.WindowFree.qualified (table name : String) : WindowFree (.qualified table name) :=
  .intro nofun nofun

theorem Expr.WindowFree.operand {e p : Expr} (h : e.WindowFree) (hp : p ∈ e.operands) :
    p.WindowFree := by
  cases h with
  | intro _ h => exact h p hp

namespace Context

/-! ### Rows later on -/

/-- Row `j` of the second context has what is known about row `i` of the first one besides cells. Its
group may have been found in the meantime, and results of windows may not matter. -/
structure SameState (windows : Prop) (i j : Nat) (c d : Context) : Prop where
  row : i < c.size
  keys : ∀ label, (c.frame.rows[i]?).bind (·.keys.get? label) =
    (d.frame.rows[j]?).bind (·.keys.get? label)
  results : windows → ∀ label, (c.frame.rows[i]?).bind (·.windows.get? label) =
    (d.frame.rows[j]?).bind (·.windows.get? label)
  group : ∀ g, (c.frame.rows[i]?).bind (·.group) = some g →
    (d.frame.rows[j]?).bind (·.group) = some g
  sourceEmpty : c.sourceEmpty = d.sourceEmpty
  aggregated : c.aggregated = true → d.aggregated = true

/-- Fields are found alike, with the same cells in the two rows. -/
structure SameCells (i j : Nat) (c d : Context) : Prop where
  fields : ∀ table, (c.frame.view? table).map View.fields = (d.frame.view? table).map View.fields
  cells : ∀ table name,
    (c.frame.view? table).map (·.value i name) = (d.frame.view? table).map (·.value j name)
  direct : c.direct = d.direct
  ambiguous : c.ambiguous = d.ambiguous
  collapsed : c.collapsed = d.collapsed

/-- An aggregate has taken all columns away. -/
structure Stripped (c : Context) : Prop where
  void : c.Void
  collapsed : c.collapsed = true

/-- Row `i` of one context may be row `j` of another later on, as long as values are remembered. -/
structure Becomes (windows : Prop) (i j : Nat) (c d : Context) : Prop
    extends SameState windows i j c d where
  cells : SameCells i j c d ∨ d.Stripped

/-- Row `j` of one context holds what an evaluation has looked at that has left row `i` of the other.
Outside the arguments of aggregates it has read no cell if no plain column is noticed. -/
structure Revisits (windows : Prop) (b : Bool) (i j : Nat) (c d : Context) : Prop
    extends SameState windows i j c d where
  cells : SameCells i j c d ∨ d.Stripped ∨ (b = false ∧ c.sawPlainColumn = false)

/-- Columns of the first context may have been noticed; nothing else has changed. -/
structure Glimpsed (c d : Context) : Prop where
  same : d = { c with sawPlainColumn := d.sawPlainColumn }
  saw : c.sawPlainColumn = true → d.sawPlainColumn = true

variable {W : Prop} {b : Bool} {i j k : Nat} {c d e : Context}

theorem Glimpsed.refl (c : Context) : c.Glimpsed c := ⟨rfl, id⟩

theorem Glimpsed.note (h : c.Glimpsed d) (b : Bool) :
    c.Glimpsed (if b then d else { d with sawPlainColumn := true }) := by
  cases b with
  | true => exact h
  | false =>
    refine ⟨?_, fun _ => rfl⟩
    rw [h.same]
    rfl

theorem Glimpsed.resolve (h : c.Glimpsed d) (name : String) : d.resolve name = c.resolve name := by
  rw [h.same]
  rfl

theorem SameState.trans (h : SameState W i j c d) (h' : SameState W j k d e) :
    SameState W i k c e where
  row := h.row
  keys label := (h.keys label).trans (h'.keys label)
  results hw label := (h.results hw label).trans (h'.results hw label)
  group g hg := h'.group g (h.group g hg)
  sourceEmpty := h.sourceEmpty.trans h'.sourceEmpty
  aggregated ha := h'.aggregated (h.aggregated ha)

theorem SameCells.trans (h : SameCells i j c d) (h' : SameCells j k d e) : SameCells i k c e where
  fields table := (h.fields table).trans (h'.fields table)
  cells table name := (h.cells table name).trans (h'.cells table name)
  direct := h.direct.trans h'.direct
  ambiguous := h.ambiguous.trans h'.ambiguous
  collapsed := h.collapsed.trans h'.collapsed

theorem SameCells.resolve (h : SameCells i j c d) (name : String) :
    c.resolve name = d.resolve name := by
  rw [Context.resolve, Context.resolve, h.direct, h.ambiguous, h.collapsed]

theorem Stripped.resolve (h : c.Stripped) (name : String) :
    c.resolve name = .error .mixedAggregate := by
  rw [Context.resolve, h.void.direct, h.void.ambiguous, h.collapsed]
  rfl

theorem Stripped.view? (h : c.Stripped) (table : String) : c.frame.view? table = none := by
  rw [Frame.view?, h.void.views]
  rfl

/-- Columns that are gone do not come back. -/
theorem SameCells.stripped (h : SameCells i j c d) (hc : c.Stripped) : d.Stripped where
  void := by
    refine ⟨List.eq_nil_iff_forall_not_mem.mpr fun p hp => ?_, h.direct ▸ hc.void.direct,
      h.ambiguous ▸ hc.void.ambiguous⟩
    have hfields := h.fields p.1
    rw [hc.view?] at hfields
    have hnone : d.frame.views.lookup p.1 = none := by simpa [Frame.view?] using hfields.symm
    simpa using List.lookup_eq_none_iff.mp hnone p hp
  collapsed := h.collapsed ▸ hc.collapsed

theorem Becomes.trans (h : Becomes W i j c d) (h' : Becomes W j k d e) : Becomes W i k c e where
  toSameState := h.toSameState.trans h'.toSameState
  cells := by
    rcases h'.cells with hd | he
    · exact h.cells.imp (·.trans hd) hd.stripped
    · exact .inr he

/-- Nothing about a row depends on what is remembered or whether columns were noticed. -/
theorem Becomes.of_same {memo : Array (Labelled Value)} {saw : Bool}
    (h : d = { c with memo := memo, sawPlainColumn := saw }) (hi : i < c.size) :
    Becomes W i i c d := by
  subst h
  exact ⟨⟨hi, fun _ => rfl, fun _ _ => rfl, fun _ h => h, rfl, id⟩,
    .inl ⟨fun _ => rfl, fun _ _ => rfl, rfl, rfl, rfl⟩⟩

theorem Becomes.refl (W : Prop) (hi : i < c.size) : Becomes W i i c c := by
  have hsame : c = { c with memo := c.memo, sawPlainColumn := c.sawPlainColumn } := rfl
  exact .of_same hsame hi

theorem Becomes.revisits (h : Becomes W i j c d) (b : Bool) : Revisits W b i j c d :=
  ⟨h.toSameState, h.cells.imp_right .inl⟩

/-- The results of windows may cease to matter. -/
theorem Becomes.mono {W' : Prop} (hW : W' → W) (h : Becomes W i j c d) : Becomes W' i j c d :=
  { h with results := fun hw => h.results (hW hw) }

/-! ### An aggregate on the way -/

theorem stripped_collapse (c : Context) : c.collapse.Stripped :=
  ⟨c.void_collapse, by rw [collapse_eq]⟩

/-- What the first row holds besides its group when all rows become one group. -/
theorem state_collapse {α : Type} (c : Context) (f : RowState Frame → Option α)
    (hf : ∀ r g, f { r with group := g } = f r) :
    (c.collapse.frame.rows[0]?).bind f = (c.frame.rows[0]?).bind f := by
  rw [getElem?_rows_collapse, Option.bind_map]
  exact congrArg (Option.bind _) (funext fun r => hf r _)

theorem size_ne_zero_of_collapse (h : i < c.collapse.size) : c.size ≠ 0 := by
  intro hsize
  have hrows : c.collapse.frame.rows = #[] := by
    simp [rows_collapse, Array.eq_empty_of_size_eq_zero hsize]
  rw [Context.size, Frame.size, hrows] at h
  exact absurd h (Nat.not_lt_zero i)

/-- Of all rows only the first one is left. -/
theorem eq_zero_of_lt_size_collapse (h : i < c.collapse.size) : i = 0 := by
  rw [size_collapse (size_ne_zero_of_collapse h)] at h
  exact Nat.lt_one_iff.mp h

/-- A row without a group becomes the group of all rows. -/
theorem Becomes.collapse (h : Becomes W i 0 c d) (hgroup : ¬c.InGroup i) :
    Becomes W i 0 c d.collapse where
  row := h.row
  keys label := by
    rw [d.state_collapse (·.keys.get? label) fun _ _ => rfl]
    exact h.keys label
  results hw label := by
    rw [d.state_collapse (·.windows.get? label) fun _ _ => rfl]
    exact h.results hw label
  group g hg := absurd (by rw [InGroup, hg]; rfl) hgroup
  sourceEmpty := by
    rw [collapse_eq]
    exact h.sourceEmpty
  aggregated _ := by rw [collapse_eq]
  cells := .inr d.stripped_collapse

theorem SameCells.of_note
    (h : SameCells i j (if b then c else { c with sawPlainColumn := true }) d) :
    SameCells i j c d := by
  cases b with
  | true => exact h
  | false => exact ⟨h.fields, h.cells, h.direct, h.ambiguous, h.collapsed⟩

/-- What holds after columns were noticed held before. -/
theorem Revisits.of_note
    (h : Revisits W b i j (if b then c else { c with sawPlainColumn := true }) d) :
    Revisits W b i j c d := by
  cases b with
  | true => exact h
  | false =>
    refine ⟨⟨h.row, h.keys, h.results, h.group, h.sourceEmpty, h.aggregated⟩, ?_⟩
    rcases h.cells with hd | hd | ⟨-, hsaw⟩
    · exact .inl (hd.of_note (b := false))
    · exact .inr (.inl hd)
    · cases hsaw

/-- What holds after an aggregate was noticed held before. -/
theorem Revisits.of_noteAggregated (h : Revisits W b i j { c with aggregated := true } d) :
    Revisits W b i j c d := by
  refine ⟨⟨h.row, h.keys, h.results, h.group, h.sourceEmpty, fun _ => h.aggregated rfl⟩, ?_⟩
  rcases h.cells with hd | hd | hd
  · exact .inl ⟨hd.fields, hd.cells, hd.direct, hd.ambiguous, hd.collapsed⟩
  · exact .inr (.inl hd)
  · exact .inr (.inr hd)

/-- What holds after all rows have become one group held before. -/
theorem Revisits.of_collapse (h : Revisits W b i j c.collapse d) (hgroup : ¬c.InGroup i) :
    Revisits W b i j c d := by
  have hsize := size_ne_zero_of_collapse h.row
  obtain rfl := eq_zero_of_lt_size_collapse h.row
  have haggregated : c.collapse.aggregated = true := by rw [collapse_eq]
  refine ⟨⟨Nat.pos_of_ne_zero hsize, fun label => ?_, fun hw label => ?_, fun g hg => ?_, ?_,
    fun _ => h.aggregated haggregated⟩, ?_⟩
  · rw [← h.keys, c.state_collapse (·.keys.get? label) fun _ _ => rfl]
  · rw [← h.results hw, c.state_collapse (·.windows.get? label) fun _ _ => rfl]
  · exact absurd (by rw [InGroup, hg]; rfl) hgroup
  · rw [← h.sourceEmpty, collapse_eq]
  · rcases h.cells with hd | hd | ⟨hb, hsaw⟩
    · exact .inr (.inl (hd.stripped c.stripped_collapse))
    · exact .inr (.inl hd)
    · rw [collapse_eq] at hsaw
      exact .inr (.inr ⟨hb, hsaw⟩)

end Context

namespace Step

open Context

variable {engine : Engine} {W : Prop} {b : Bool} {i j : Nat} {q : Context} {α : Type}

/-- The step gives the value and notices columns at most, or it finds that columns are gone. -/
def Yields (s : Step α) (q : Context) (a : α) : Prop :=
  (∃ p, s q = .ok a p ∧ q.Glimpsed p) ∨ ∃ p, s q = .error .mixedAggregate p

/-- An evaluation in row `i` followed by one in row `j` of `q`, unless the context that the first one
leaves is not revisited there. -/
def revisiting (W : Prop) (b : Bool) (i j : Nat) (q : Context) : StepRelation :=
  .follows (fun c => ¬Revisits W b i j c q) (fun _ d => q.Glimpsed d) (· = .mixedAggregate)

theorem revisiting_readField (name : String) :
    (revisiting W b i j q).rel (readField name i b) (readField name j b) := by
  constructor
  · intro c x c' hlost h
    rw [readField_apply] at h
    split at h
    · cases h
      exact fun hr => hlost hr.of_note
    · cases h
  · intro c d x c' hd h
    refine (Classical.em (Revisits W b i j c' q)).symm.imp_right fun hr => ?_
    have hframe : d.frame = q.frame := by rw [hd.same]
    rw [readField_apply, hd.resolve]
    rw [readField_apply] at h
    cases hresolve : c.resolve name with
    | error e =>
      rw [hresolve] at h
      cases h
    | ok table =>
      rw [hresolve] at h
      cases h
      -- the cells are those of the row that is revisited, or its columns are gone; since the column was
      -- noticed just now, it cannot be that none ever was
      rcases hr.cells with hcells | hstripped | ⟨rfl, hsaw⟩
      · have hcells := hcells.of_note
        rw [← hcells.resolve, hresolve]
        refine .inl ⟨_, ?_, hd.note b⟩
        rw [hcells.cells table name, hframe]
      · rw [hstripped.resolve]
        exact .inr ⟨_, _, rfl, rfl⟩
      · cases hsaw

theorem revisiting_readQualified (table name : String) :
    (revisiting W b i j q).rel (readQualified table name i b) (readQualified table name j b) := by
  constructor
  · intro c x c' hlost h
    rw [readQualified_apply] at h
    split at h
    · split at h
      · cases h
        exact fun hr => hlost hr.of_note
      · cases h
    · cases h
  · intro c d x c' hd h
    refine (Classical.em (Revisits W b i j c' q)).symm.imp_right fun hr => ?_
    have hview : d.frame.view? table = q.frame.view? table := by rw [hd.same]
    have hcollapsed : d.collapsed = q.collapsed := by rw [hd.same]
    rw [readQualified_apply, hview]
    rw [readQualified_apply] at h
    cases hv : c.frame.view? table with
    | none =>
      rw [hv] at h
      cases h
    | some v =>
      rw [hv] at h
      dsimp only at h
      cases hdeclares : v.declares name with
      | false =>
        rw [hdeclares] at h
        cases h
      | true =>
        rw [hdeclares] at h
        cases h
        -- the same three cases as for an unqualified field
        rcases hr.cells with hcells | hstripped | ⟨rfl, hsaw⟩
        · have hcells := hcells.of_note
          have hfields := hcells.fields table
          have hcell := hcells.cells table name
          rw [hv] at hfields hcell
          cases hw : q.frame.view? table with
          | none =>
            rw [hw] at hfields
            cases hfields
          | some w =>
            rw [hw] at hfields hcell
            have hsame : w.declares name = true := by
              rw [View.declares, ← Option.some.inj hfields]
              exact hdeclares
            have hvalue : v.value i name = w.value j name := Option.some.inj hcell
            simp only [hsame, if_true, hvalue]
            exact .inl ⟨_, rfl, hd.note b⟩
        · rw [hstripped.view?, hcollapsed, hstripped.collapsed]
          exact .inr ⟨_, _, rfl, rfl⟩
        · cases hsaw

theorem revisiting_readWindow (hW : W) (label : String) :
    (revisiting W b i j q).rel (readWindow label i) (readWindow label j) := by
  constructor
  · intro c x c' hlost h
    rwa [readWindow_eq_ok h]
  · intro c d x c' hd h
    obtain rfl := readWindow_eq_ok h
    refine (Classical.em (Revisits W b i j c' q)).symm.imp_right fun hr => .inl ⟨d, ?_, hd⟩
    have hframe : d.frame = q.frame := by rw [hd.same]
    have hempty : d.sourceEmpty = q.sourceEmpty := by rw [hd.same]
    rw [readWindow_apply] at h ⊢
    rw [hempty, hframe, ← hr.sourceEmpty, ← hr.results hW]
    split at h
    · cases h
      rw [if_pos ‹_›]
    · rw [if_neg ‹_›]
      split at h
      · cases h
        rfl
      · cases h

/-- The group that was found, or made of all rows, is there in the row that is revisited. -/
theorem revisiting_groupOf : (revisiting W b i j q).rel (groupOf i) (groupOf j) := by
  have hnone : ∀ {c : Context}, (c.frame.rows[i]?).bind (·.group) = none → ¬c.InGroup i := by
    intro c hgroup
    rw [InGroup, hgroup]
    exact Bool.false_ne_true
  constructor
  · intro c g c' hlost h hr
    cases hgroup : (c.frame.rows[i]?).bind (·.group) with
    | some g' =>
      rw [groupOf_of_group hgroup] at h
      cases h
      exact hlost hr.of_noteAggregated
    | none =>
      obtain ⟨hin, -, -⟩ | ⟨-, -, rfl⟩ := groupOf_eq_ok h
      · exact hnone hgroup hin
      · exact hlost (hr.of_collapse (hnone hgroup))
  · intro c d g c' hd h
    refine (Classical.em (Revisits W b i j c' q)).symm.imp_right fun hr => .inl ⟨d, ?_, hd⟩
    have hframe : d.frame = q.frame := by rw [hd.same]
    -- either way the group is in the row that is left, and an aggregate has been noticed
    have hleft : (c'.frame.rows[i]?).bind (·.group) = some g ∧ c'.aggregated = true := by
      obtain ⟨-, hg, rfl⟩ | ⟨-, rfl, rfl⟩ := groupOf_eq_ok h
      · exact ⟨hg, rfl⟩
      · have hrow := hr.row
        obtain rfl := eq_zero_of_lt_size_collapse hrow
        refine ⟨group_collapse (size_ne_zero_of_collapse hrow), ?_⟩
        rw [collapse_eq]
    have hg : (d.frame.rows[j]?).bind (·.group) = some g := by
      rw [hframe]
      exact hr.group g hleft.1
    have haggregated : d.aggregated = true := by
      rw [hd.same]
      exact hr.aggregated hleft.2
    rw [groupOf_of_group hg]
    exact congrArg (EStateM.Result.ok g ·) (by cases d; cases haggregated; rfl)

/-- Without memory only the keys of groups are not computed. -/
theorem value_of_forgetful (hengine : engine.remembers = false) (v : Evaluator) (c : Context) :
    v.value engine i b c =
      match v.label?.bind fun label => (c.frame.rows[i]?).bind (·.keys.get? label) with
      | some x => .ok x c
      | none => v.compute i b c := by
  cases hl : v.label? with
  | none =>
    rw [Evaluator.value_of_label?_eq_none hl]
    rfl
  | some label =>
    have hremembered : c.remembered? engine i label =
        (c.frame.rows[i]?).bind (·.keys.get? label) := by
      rw [Context.remembered?, hengine]
      rfl
    cases hx : (c.frame.rows[i]?).bind (·.keys.get? label) with
    | some x =>
      rw [Evaluator.value_of_remembered hl (hremembered.trans hx), Option.bind_some, hx]
    | none =>
      rw [Evaluator.value_of_not_remembered hl (hremembered.trans hx), Option.bind_some, hx]
      cases v.compute i b c with
      | ok x c' =>
        dsimp only
        rw [Context.remember, hengine]
        rfl
      | error e c' => rfl

theorem revisiting_value (hengine : engine.remembers = false) {v : Evaluator}
    (h : (revisiting W b i j q).rel (v.compute i b) (v.compute j b)) :
    (revisiting W b i j q).rel (v.value engine i b) (v.value engine j b) := by
  constructor
  · intro c x c' hlost hs
    rw [value_of_forgetful hengine] at hs
    split at hs
    · cases hs
      exact hlost
    · exact h.stays hlost hs
  · intro c d x c' hd hs
    refine (Classical.em (Revisits W b i j c' q)).symm.imp_right fun hr => ?_
    have hframe : d.frame = q.frame := by rw [hd.same]
    -- to be lost is lasting, so the context at the start is revisited if the one that is left is
    have hc : Revisits W b i j c q := by
      refine Classical.byContradiction fun hlost => ?_
      rw [value_of_forgetful hengine] at hs
      split at hs
      · cases hs
        exact hlost hr
      · exact h.stays hlost hs hr
    have hkeys : (v.label?.bind fun label => (d.frame.rows[j]?).bind (·.keys.get? label)) =
        v.label?.bind fun label => (c.frame.rows[i]?).bind (·.keys.get? label) := by
      rw [hframe]
      exact congrArg _ (funext fun label => (hc.keys label).symm)
    rw [value_of_forgetful hengine] at hs ⊢
    rw [hkeys]
    split at hs
    · cases hs
      exact .inl ⟨d, rfl, hd⟩
    · exact (h.follows hd hs).resolve_left fun hlost => hlost hr

/-- The simulation of an evaluation by its repetition. -/
def revisit (hengine : engine.remembers = false) (W : Prop) (b : Bool) (i j : Nat) (q : Context) :
    SelfSimulation engine where
  Index := Unit
  row _ := i
  otherRow _ := j
  inAggregate _ := b
  relation _ := revisiting W b i j q
  admits e := W ∨ e.WindowFree
  operand h hp := h.imp_right fun h => h.operand hp
  readField _ := revisiting_readField
  readQualified _ := revisiting_readQualified
  readWindow _ _ _ _ _ h := by
    refine revisiting_readWindow (h.resolve_right fun hfree => ?_) _
    cases hfree with
    | intro hnot _ => exact hnot _ _ _ _ rfl
  call _ _ name q' f _ _ hf := by
    let r := revisiting W b i j q
    exact r.call rfl (fun _ _ _ _ _ => trivial) (fun _ _ => hf) fun h _ =>
      r.bind revisiting_groupOf fun group => r.lift fun _ _ => trivial
  value _ _ _ h := revisiting_value hengine h

theorem yields_of_rel {s t : Step α} (h : (revisiting W b i j q).rel s t) {c c' : Context} {a : α}
    (hs : s c = .ok a c') (hr : Revisits W b i j c' q) : Yields t q a := by
  rcases h.follows (.refl q) hs with hlost | ⟨p, hp, hq⟩ | ⟨e, p, hp, rfl⟩
  · exact absurd hr hlost
  · exact .inl ⟨p, hp, hq⟩
  · exact .inr ⟨p, hp⟩

/-- An action in a row can be repeated. Without results of windows, for these may have changed. -/
def Repeatable (W : Prop) (b : Bool) (action : Nat → Step α) : Prop :=
  ∀ ⦃i j : Nat⦄ ⦃c c' q : Context⦄ ⦃a : α⦄, action i c = .ok a c' → Revisits W b i j c' q →
    Yields (action j) q a

theorem repeatable_evaluate (hengine : engine.remembers = false) {e : Expr}
    (he : W ∨ e.WindowFree) (b : Bool) :
    Repeatable W b fun i => (e.evaluator engine).value engine i b := fun i j _ _ q _ hs hr =>
  yields_of_rel ((revisit hengine W b i j q).evaluate he ()) hs hr

theorem repeatable_values (hengine : engine.remembers = false) {es : List Expr}
    (hes : ∀ e ∈ es, W ∨ e.WindowFree) (b : Bool) :
    Repeatable W b fun i => Evaluator.values engine (Expr.evaluators engine es) i b :=
  fun i j _ _ q _ hs hr => yields_of_rel ((revisit hengine W b i j q).values hes ()) hs hr

theorem repeatable_holds (hengine : engine.remembers = false) {e : Expr}
    (he : W ∨ e.WindowFree) :
    Repeatable W false fun i => (e.evaluator engine).holds engine i := fun i j _ _ q _ hs hr =>
  yields_of_rel ((revisit hengine W false i j q).holds he (x := ()) rfl) hs hr

end Step

end TableQuery
