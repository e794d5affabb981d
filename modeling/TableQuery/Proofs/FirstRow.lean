/-
The first row.

Without groups an aggregate turns all rows into one group, whatever row it is called in. It is called in
the first row or in none, as long as nothing tells the rows apart without a column being noticed: the
other rows answer like the first until a column is read, and afterwards rows do not become one group any
more. What does tell rows apart are the results of windows, which are selected as they are, and values
that were remembered before, whose labels have to be others.

* `Frame.Merged` — all rows have become one group, which has the results of the first row;
* `Context.Abreast` — a row beside the first row, as long as no column was noticed;
* `Step.InStep.safe_rows` — a loop that comes to all rows, or to one group.
-/
import TableQuery.Proofs.Memory
import TableQuery.Proofs.Recalled
import TableQuery.Proofs.WindowResults

namespace TableQuery

/-! ### Rows without groups, and one group of all rows -/

/-- No row is in a group, and none has keys of a group. -/
structure Frame.Loose (f : Frame) : Prop where
  group : ∀ i : Nat, (f.rows[i]?).bind (·.group) = none
  keys : ∀ (i : Nat) label, (f.rows[i]?).bind (·.keys.get? label) = none

/-- The rows of the first frame have become one group. Of its windows the first row has kept the results. -/
structure Frame.Merged (f g : Frame) : Prop where
  nonempty : f.size ≠ 0
  size : g.size = 1
  inGroups : g.InGroups
  results : ∀ label, g.result? label 0 = f.result? label 0

theorem Frame.Loose.take {f : Frame} (h : f.Loose) (places : List Nat) : (f.take places).Loose where
  group i := by
    rw [Context.state_take (f := (·.group)) rfl]
    cases places[i]? with
    | none => rfl
    | some p => exact h.group p
  keys i label := by
    rw [Context.state_take (f := (·.keys.get? label)) rfl]
    cases places[i]? with
    | none => rfl
    | some p => exact h.keys p label

theorem Frame.Loose.noted {f g : Frame} {new : Frame → Prop} (h : f.Loose) (s : f.Noted new g) :
    g.Loose where
  group i := by
    have hgroup := congrArg (Option.bind · id) (s.group i)
    simp only [Option.bind_map, Function.id_comp] at hgroup
    exact hgroup.trans (h.group i)
  keys i label := by
    have hkeys := congrArg (Option.bind · (·.get? label)) (s.keys i)
    simp only [Option.bind_map] at hkeys
    exact hkeys.trans (h.keys i label)

theorem Frame.Merged.hasResults {f g : Frame} {label : String} (h : f.Merged g)
    (hf : f.HasResults label) : g.HasResults label := by
  intro i hi
  obtain rfl : i = 0 := Nat.lt_one_iff.mp (h.size ▸ hi)
  rw [h.results]
  exact hf 0 (Nat.pos_of_ne_zero h.nonempty)

namespace Context

variable {engine : Engine} {f : Frame} {L : String → Prop} {i j k : Nat} {c d : Context}
  {label : String} {v : Value}

theorem merged_collapse (hsize : f.size ≠ 0) (h : c.frame = f ∨ f.Merged c.frame) :
    f.Merged c.collapse.frame := by
  have hc : c.size ≠ 0 := by
    rcases h with rfl | h
    · exact hsize
    · rw [size, h.size]
      exact Nat.one_ne_zero
  refine ⟨hsize, size_collapse hc, fun k hk => ?_, fun label => ?_⟩
  · obtain rfl := eq_zero_of_lt_size_collapse hk
    rw [group_collapse hc]
    rfl
  · have hstate := c.state_collapse (·.windows.get? label) fun _ _ => rfl
    refine hstate.trans ?_
    rcases h with rfl | h
    · rfl
    · exact h.results label

/-- A column was noticed, or the first row is in a group. -/
def Noticed (c : Context) : Prop := c.sawPlainColumn = true ∨ c.InGroup 0

/-! ### A row beside the first one -/

theorem held?_remember_of_ne {other : String} (hne : other ≠ label) :
    (c.remember engine i label v).held? k other = c.held? k other := by
  rw [held?_remember, if_neg fun h => hne h.2.2.2]

/-- Row `k` is the next to be looked at: no column was noticed so far, and nothing is remembered from
that row on under the labels. -/
structure Before (f : Frame) (L : String → Prop) (k : Nat) (c : Context) : Prop where
  frame : c.frame = f
  unseen : c.sawPlainColumn = false
  size_memo : c.memo.size = f.size
  unheld : ∀ j, k ≤ j → ∀ label, L label → c.held? j label = none

/-- A look at row `i` beside a look at the first row, before a column was noticed. The same is remembered
under the labels. -/
structure Abreast (f : Frame) (L : String → Prop) (i : Nat) (c d : Context) : Prop where
  first : c.Before f L 1
  other : d.Before f L (i + 1)
  held : ∀ label, L label → d.held? i label = c.held? 0 label

theorem Before.remember (h : c.Before f L k) (hi : i < k) (label : String) (v : Value) :
    (c.remember engine i label v).Before f L k := by
  refine ⟨?_, ?_, (size_memo_remember ..).trans h.size_memo, fun j hj other hother => ?_⟩
  · rw [remember_eq]
    exact h.frame
  · rw [remember_eq]
    exact h.unseen
  · rw [held?_remember, if_neg fun hp => by omega]
    exact h.unheld j hj other hother

theorem Before.mono (h : c.Before f L k) (hk : k ≤ j) : c.Before f L j :=
  { h with unheld := fun l hl => h.unheld l (Nat.le_trans hk hl) }

theorem abreast_of_before (hc : c.Before f L 0) (hd : d.Before f L i) : Abreast f L i c d where
  first := hc.mono (Nat.zero_le 1)
  other := hd.mono (Nat.le_succ i)
  held label hlabel := by
    rw [hd.unheld i (Nat.le_refl i) label hlabel, hc.unheld 0 (Nat.le_refl 0) label hlabel]

namespace Abreast

variable (h : Abreast f L i c d)
include h

theorem remember (hi : i < f.size) (engine : Engine) (label : String) (v : Value) :
    Abreast f L i (c.remember engine 0 label v) (d.remember engine i label v) where
  first := h.first.remember Nat.zero_lt_one label v
  other := h.other.remember (Nat.lt_succ_self i) label v
  held other hother := by
    have hd : i < d.memo.size := h.other.size_memo ▸ hi
    have hc : 0 < c.memo.size := h.first.size_memo ▸ Nat.zero_lt_of_lt hi
    rw [held?_remember, held?_remember, h.held other hother]
    simp only [hd, hc, true_and]

/-- What is remembered under other labels makes no difference. -/
theorem remember_first (hlabel : ¬L label) (engine : Engine) (v : Value) :
    Abreast f L i (c.remember engine 0 label v) d where
  first := h.first.remember Nat.zero_lt_one label v
  other := h.other
  held other hother := by
    have hne : other ≠ label := fun hne => hlabel (hne ▸ hother)
    rw [held?_remember_of_ne hne]
    exact h.held other hother

theorem remember_other (hlabel : ¬L label) (engine : Engine) (v : Value) :
    Abreast f L i c (d.remember engine i label v) where
  first := h.first
  other := h.other.remember (Nat.lt_succ_self i) label v
  held other hother := by
    have hne : other ≠ label := fun hne => hlabel (hne ▸ hother)
    rw [held?_remember_of_ne hne]
    exact h.held other hother

theorem remembered? (hf : f.Loose) (hlabel : L label) (engine : Engine) :
    d.remembered? engine i label = c.remembered? engine 0 label := by
  rw [Context.remembered?, Context.remembered?, h.first.frame, h.other.frame, hf.keys, hf.keys,
    ← held?, ← held?, h.held label hlabel]

end Abreast

end Context

namespace Step

open Context

variable {engine : Engine} {α : Type} {f : Frame} {L : String → Prop} {i : Nat} {c d : Context}
  {es : List Expr} {action : Nat → Step α}

/-! ### What a look at a row keeps -/

theorem steady_merged (engine : Engine) (hsize : f.size ≠ 0) :
    Steady engine True fun c => c.frame = f ∨ f.Merged c.frame where
  note h := h
  remember i label v h := by
    rw [remember_eq]
    exact h
  groupOf _ i := by
    intro c g d hc he
    obtain ⟨-, -, rfl⟩ | ⟨-, -, rfl⟩ := groupOf_eq_ok he
    · exact hc
    · exact .inr (merged_collapse hsize hc)

/-- When a column was noticed rows without groups stay as they are. -/
theorem steady_column (engine : Engine) (hf : f.Loose) :
    Steady engine True fun c => c.frame = f ∧ c.sawPlainColumn = true where
  note h := ⟨h.1, rfl⟩
  remember i label v h := by
    rw [remember_eq]
    exact h
  groupOf _ i := by
    intro c g d hc he
    obtain ⟨-, hg, -⟩ | ⟨hsaw, -, -⟩ := groupOf_eq_ok he
    · rw [hc.1, hf.group] at hg
      cases hg
    · exact absurd (hsaw.symm.trans hc.2) Bool.false_ne_true

theorem steady_noticed (engine : Engine) : Steady engine True Noticed where
  note _ := .inl rfl
  remember i label v h := by
    rw [remember_eq]
    exact h
  groupOf _ i := by
    intro c g d hc he
    obtain ⟨-, -, rfl⟩ | ⟨hsaw, -, rfl⟩ := groupOf_eq_ok he
    · exact hc
    · have hgroup := hc.resolve_left fun h => Bool.false_ne_true (hsaw.symm.trans h)
      have hsize : c.size ≠ 0 := by
        intro hsize
        rw [InGroup, Array.getElem?_eq_none (Nat.le_of_eq hsize)] at hgroup
        cases hgroup
      refine .inr ?_
      rw [InGroup, group_collapse hsize]
      rfl

/-! ### The two rows -/

/-- The evaluation of an expression without windows in a row beside that in the first row, until a column
is noticed or all rows become one group. -/
def abreast (engine : Engine) (L : String → Prop) (hi : i < f.size) (hf : f.Loose) :
    SelfSimulation engine where
  Index := Unit
  row _ := 0
  otherRow _ := i
  inAggregate _ := false
  relation _ := .follows Noticed (Abreast f L i) fun _ => False
  admits e := e.WindowFree ∧ e.Labels L
  operand h hp := ⟨h.1.operand hp, fun q hq => h.2 q (.operand hp hq)⟩
  readField _ name := by
    constructor
    · intro c x c' _ h
      exact .inl (by rw [(readField_eq_ok h).2])
    · intro c d x c' _ h
      exact .inl (.inl (by rw [(readField_eq_ok h).2]))
  readQualified _ table name := by
    constructor
    · intro c x c' _ h
      exact .inl (by rw [(readQualified_eq_ok h).2])
    · intro c d x c' _ h
      exact .inl (.inl (by rw [(readQualified_eq_ok h).2]))
  readWindow _ _ _ _ _
    | ⟨.intro h _, _⟩ => absurd rfl (h _ _ _ _)
  call _ _ name q g _ _ hg := by
    let r : StepRelation := .follows Noticed (Abreast f L i) fun _ => False
    refine r.call rfl (fun _ _ _ _ _ => trivial) (fun _ _ => hg) fun h _ =>
      r.bind ⟨fun hc he => (steady_noticed engine).groupOf trivial 0 hc he, fun {c d _ c'} hcd he => ?_⟩
        fun group => r.lift fun _ _ => trivial
    have hsize : c.size ≠ 0 := by
      rw [size, hcd.first.frame]
      exact Nat.ne_zero_of_lt hi
    obtain ⟨-, hc, -⟩ | ⟨-, -, rfl⟩ := groupOf_eq_ok he
    · rw [hcd.first.frame, hf.group] at hc
      cases hc
    · refine .inl (.inr ?_)
      rw [InGroup, group_collapse hsize]
      rfl
  value _ e he h := h.value (fun label x hc => (steady_noticed engine).remember 0 label x hc)
    (fun {c d label} hl hcd => by
      rw [Expr.label?_evaluator, Expr.rememberedLabel?] at hl
      split at hl
      · cases hl
        exact hcd.remembered? hf (he.2 e (.self e) ‹_›) engine
      · cases hl)
    fun x _ hcd => hcd.remember hi engine _ x

/-- A window that was computed for a row is read there, and may be remembered. -/
theorem exists_value_of_window (engine : Engine) {e : Expr} (he : e.Selectable) {w : Expr.WindowParts}
    {label : String} (hw : e.window? = some (w, label)) (row : Nat)
    (hc : (c.frame.result? label row).isSome) :
    ∃ x d, (e.evaluator engine).value engine row false c = .ok x d ∧
      (d = c ∨ ∃ v, d = c.remember engine row label v) := by
  have hwindowed : ∀ {e : Expr}, e.Windowed Expr.WindowFree → e.window? = some (w, label) →
      ∃ x d, (e.evaluator engine).value engine row false c = .ok x d ∧
        (d = c ∨ ∃ v, d = c.remember engine row label v) := by
    intro e he hw
    cases he with
    | plain he =>
      rw [he.window?] at hw
      cases hw
    | @window function partition order extent =>
      cases hw
      have hl := Expr.label?_evaluator engine (.window function partition order extent)
      cases hx : c.remembered? engine row (Expr.window function partition order extent).label with
      | some y => exact ⟨y, c, Evaluator.value_of_remembered hl hx false, .inl rfl⟩
      | none =>
        -- a result that is there is read, whether it is remembered as well or not
        obtain ⟨y, hread⟩ : ∃ y, readWindow (Expr.window function partition order extent).label row c =
            .ok y c := by
          obtain ⟨v, hv⟩ := Option.isSome_iff_exists.mp hc
          rw [Frame.result?] at hv
          rw [readWindow_apply, hv]
          split <;> exact ⟨_, rfl⟩
        rw [Evaluator.value_of_not_remembered hl hx, Expr.evaluator]
        dsimp only
        rw [hread]
        exact ⟨y, _, rfl, .inr ⟨y, rfl⟩⟩
  cases he with
  | expr he => exact hwindowed he hw
  | aliased name he =>
    rw [Expr.evaluator, Evaluator.value_of_label?_eq_none rfl]
    exact hwindowed he hw

/-- Labels of which none is that of a window, and under which all else among the expressions is
remembered. -/
structure Apart (L : String → Prop) (es : List Expr) : Prop where
  plain : ∀ e ∈ es, e.window? = none → e.Labels L
  window : ∀ e ∈ es, ∀ w label, e.window? = some (w, label) → ¬L label

/-- Where the first row has a value and no column was noticed, so has the row beside it. -/
theorem exists_value_abreast (hi : i < f.size) (hf : f.Loose) {e : Expr} (he : e.Selectable)
    (hready : e.Ready f) (hlabels : e.window? = none → e.Labels L)
    (hwindow : ∀ w label, e.window? = some (w, label) → ¬L label) (hcd : Abreast f L i c d)
    {x : Value} {c' : Context} (hx : (e.evaluator engine).value engine 0 false c = .ok x c') :
    c'.Noticed ∨ ∃ y d', (e.evaluator engine).value engine i false d = .ok y d' ∧
      Abreast f L i c' d' := by
  cases hw : e.window? with
  | none =>
    rcases ((abreast engine L hi hf).evaluate ⟨he.windowFree hw, hlabels hw⟩ ()).follows hcd hx with
      hnoticed | ⟨d', hd', hcd'⟩ | ⟨_, _, _, herror⟩
    · exact .inl hnoticed
    · exact .inr ⟨x, d', hd', hcd'⟩
    · exact herror.elim
  | some p =>
    obtain ⟨w, label⟩ := p
    have hL := hwindow w label hw
    have hhas := hready w label hw
    -- the results of the window differ, but they are remembered under a label of their own
    obtain ⟨x', c₁, hx', hc₁⟩ := exists_value_of_window engine he hw 0
      (hcd.first.frame.symm ▸ hhas 0 (Nat.zero_lt_of_lt hi))
    obtain ⟨y, d', hy, hd'⟩ := exists_value_of_window engine he hw i
      (hcd.other.frame.symm ▸ hhas i hi)
    cases hx.symm.trans hx'
    have hcd' : Abreast f L i c' d := by
      rcases hc₁ with rfl | ⟨v, rfl⟩
      · exact hcd
      · exact hcd.remember_first hL engine v
    refine .inr ⟨y, d', hy, ?_⟩
    rcases hd' with rfl | ⟨v, rfl⟩
    · exact hcd'
    · exact hcd'.remember_other hL engine v

/-- The same for values of a list of expressions. -/
theorem exists_values_abreast (hi : i < f.size) (hf : f.Loose) (hes : ∀ e ∈ es, e.Selectable)
    (hready : ∀ e ∈ es, e.Ready f) (hL : Apart L es) (hcd : Abreast f L i c d) {xs : List Value}
    {c' : Context} (h : Evaluator.values engine (Expr.evaluators engine es) 0 false c = .ok xs c') :
    c'.Noticed ∨ ∃ ys d', Evaluator.values engine (Expr.evaluators engine es) i false d = .ok ys d' ∧
      Abreast f L i c' d' := by
  induction es generalizing c d xs with
  | nil =>
    rw [Expr.evaluators] at h ⊢
    cases h
    exact .inr ⟨[], d, rfl, hcd⟩
  | cons e es ih =>
    rw [Evaluator.values, Expr.evaluators, List.mapM_cons] at h ⊢
    obtain ⟨x, c₁, hx, hrest⟩ := exists_of_bind_eq_ok h
    obtain ⟨xs, c₂, hxs, hc₂⟩ := exists_of_bind_eq_ok hrest
    cases hc₂
    have hL' : Apart L es := ⟨fun e he => hL.plain e (List.mem_cons_of_mem _ he),
      fun e he => hL.window e (List.mem_cons_of_mem _ he)⟩
    rcases exists_value_abreast hi hf (hes e List.mem_cons_self) (hready e List.mem_cons_self)
      (hL.plain e List.mem_cons_self) (hL.window e List.mem_cons_self) hcd hx with
        hnoticed | ⟨y, d₁, hy, hcd₁⟩
    · exact .inl ((steady_noticed engine).values (fun _ _ => .inl trivial) 0 false hnoticed hxs)
    · refine (ih (fun e he => hes e (List.mem_cons_of_mem _ he))
        (fun e he => hready e (List.mem_cons_of_mem _ he)) hL' hcd₁ hxs).imp_right ?_
      rintro ⟨ys, d', hys, hcd'⟩
      refine ⟨y :: ys, d', ?_, hcd'⟩
      rw [bind_of_ok hy]
      exact bind_of_ok hys

/-- Values in a row where the results of windows are at hand, whatever becomes of the rows meanwhile. -/
theorem safe_values_of_steady (hr : engine.functions.Regular) {I : Context → Prop}
    (S : Steady engine True I) {row : Nat} (hes : ∀ e ∈ es, e.Selectable)
    (hread : ∀ d, I d → ∀ e ∈ es, ∀ w label, e.window? = some (w, label) →
      d.sourceEmpty = true ∨ (d.frame.result? label row).isSome) (hc : I c) :
    Safe (Evaluator.values engine (Expr.evaluators engine es) row false) c fun _ => I := by
  rw [Evaluator.values, Expr.evaluators_eq_map]
  refine (Safe.mapM (I := I) (fun v hv d hd => ?_) hc).mono fun _ _ h => h.2
  obtain ⟨e, he, rfl⟩ := List.mem_map.mp hv
  exact (safe_value hr (hes e he) (hread d hd e he) false).of_eq_ok fun x d' hx _ =>
    S.evaluate (.inl trivial) row false hd hx

/-! ### All rows -/

/-- An action in the rows of a frame. In the first row it may make one group of them, and in the others
once a column was noticed it leaves them; before that it has a value wherever it has one in the first
row. -/
structure InStep (f : Frame) (L : String → Prop) (action : Nat → Step α) : Prop where
  first : f.size ≠ 0 → ∀ d, d.frame = f → Safe (action 0) d fun _ d' => d'.frame = f ∨ f.Merged d'.frame
  column : ∀ i < f.size, ∀ d, d.frame = f ∧ d.sawPlainColumn = true →
    Safe (action i) d fun _ d' => d'.frame = f ∧ d'.sawPlainColumn = true
  beside : ∀ i < f.size, ∀ {c d c' a}, Abreast f L i c d → action 0 c = .ok a c' →
    c'.Noticed ∨ ∃ a' d', action i d = .ok a' d' ∧ Abreast f L i c' d'

theorem InStep.map {β : Type} (h : InStep f L action) (g : α → β) :
    InStep f L fun i => do return g (← action i) where
  first hsize d hd := (h.first hsize d hd).bind fun _ _ hd' => .pure hd'
  column i hi d hd := (h.column i hi d hd).bind fun _ _ hd' => .pure hd'
  beside i hi c d c' b hcd hb := by
    obtain ⟨a, c₁, ha, hc₁⟩ := exists_of_bind_eq_ok hb
    cases hc₁
    refine (h.beside i hi hcd ha).imp_right ?_
    rintro ⟨a', d', ha', hcd'⟩
    exact ⟨g a', d', bind_of_ok ha', hcd'⟩

/-- Before row `i` is looked at: a column was noticed, or else all rows so far were in step with the
first one. -/
def Upcoming (f : Frame) (L : String → Prop) (action : Nat → Step α) (i : Nat) (c : Context) : Prop :=
  (c.frame = f ∧ c.sawPlainColumn = true) ∨ (c.Before f L i ∧ (0 < i →
    ∃ b a b', b.Before f L 0 ∧ action 0 b = .ok a b' ∧ ¬b'.Noticed))

theorem InStep.safe_action (h : InStep f L action) (hf : f.Loose) (hi : i < f.size)
    (hd : Upcoming f L action i d) :
    Safe (action i) d fun _ d' => Upcoming f L action (i + 1) d' ∨ (i = 0 ∧ f.Merged d'.frame) := by
  have hnot : ∀ c : Context, c.frame = f → c.sawPlainColumn = false → ¬c.Noticed := by
    rintro c hc hunseen (hsaw | hin)
    · exact Bool.false_ne_true (hunseen.symm.trans hsaw)
    · rw [InGroup, hc, hf.group] at hin
      cases hin
  rcases hd with hd | ⟨hd, hfirst⟩
  · exact (h.column i hi d hd).mono fun _ d' hd' => .inl (.inl hd')
  cases i with
  | zero =>
    refine (h.first (Nat.ne_zero_of_lt hi) d hd.frame).of_eq_ok fun a d' hs hframe => ?_
    refine hframe.imp (fun hframe => ?_) fun hm => ⟨rfl, hm⟩
    rcases h.beside 0 hi (abreast_of_before hd hd) hs with hnoticed | ⟨a', d'', hs', habreast⟩
    · refine .inl ⟨hframe, hnoticed.resolve_right fun hin => ?_⟩
      rw [InGroup, hframe, hf.group] at hin
      cases hin
    · cases hs.symm.trans hs'
      have hnext := habreast.other
      exact .inr ⟨hnext, fun _ => ⟨d, a, d', hd, hs, hnot d' hframe hnext.unseen⟩⟩
  | succ i =>
    obtain ⟨b, a, b', hb, hs, hnoticed⟩ := hfirst i.succ_pos
    obtain ⟨a', d', hs', habreast⟩ := (h.beside (i + 1) hi (abreast_of_before hb hd) hs).resolve_left
      hnoticed
    exact .ok hs' (.inl (.inr ⟨habreast.other, fun _ => ⟨b, a, b', hb, hs, hnoticed⟩⟩))

/-- A loop over rows without groups comes to all of them, or makes one group of them in the first row. -/
theorem InStep.safe_rows (h : InStep f L action) (hf : f.Loose) (hc : c.Before f L 0) :
    Safe (rows action) c fun as d =>
      (d.frame = f ∧ as.size = f.size) ∨ (f.Merged d.frame ∧ as.size = 1) := by
  have hframe : ∀ {i d}, Upcoming f L action i d → d.frame = f := fun hd => hd.elim (·.1) (·.1.frame)
  have hsize : ∀ {d : Context}, d.frame = f → d.size = f.size := fun hd => congrArg Frame.size hd
  refine (Safe.rows (J := fun i d => Upcoming f L action i d ∨ (i = 1 ∧ f.Merged d.frame))
    (fun i d hd hi => ?_) (.inl (.inr ⟨hc, fun h => absurd h (Nat.lt_irrefl 0)⟩))).mono ?_
  · rcases hd with hd | ⟨rfl, hm⟩
    · have hi : i < f.size := hsize (hframe hd) ▸ hi
      exact (h.safe_action hf hi hd).mono fun _ d' hd' => hd'.imp id fun hm => ⟨by omega, hm.2⟩
    -- the group is the only row, so there is no row 1
    · exact absurd (Nat.lt_of_lt_of_eq hi hm.size) (Nat.lt_irrefl 1)
  · rintro as d ⟨hd | ⟨hone, hm⟩, hle, hlt⟩
    · have hd := hframe hd
      rw [hsize hc.frame] at hle hlt
      rw [hsize hd] at hlt
      exact .inl ⟨hd, by omega⟩
    · exact .inr ⟨hm, hone⟩

theorem inStep_values (hr : engine.functions.Regular) (hf : f.Loose)
    (hes : ∀ e ∈ es, e.Selectable) (hready : ∀ e ∈ es, e.Ready f) (hL : Apart L es) :
    InStep f L fun i => Evaluator.values engine (Expr.evaluators engine es) i false where
  first hsize d hd := by
    refine safe_values_of_steady hr (steady_merged engine hsize) hes (fun d hd e he w label hw => ?_)
      (.inl hd)
    have hhas := hready e he w label hw
    rcases hd with rfl | hd
    · exact .inr (hhas 0 (Nat.pos_of_ne_zero hsize))
    · exact .inr (hd.hasResults hhas 0 (hd.size ▸ Nat.zero_lt_one))
  column i hi d hd :=
    safe_values_of_steady hr (steady_column engine hf) hes
      (fun d hd e he w label hw => .inr (hd.1.symm ▸ hready e he w label hw i hi)) hd
  beside i hi _ _ _ _ hcd hs := exists_values_abreast hi hf hes hready hL hcd hs

theorem inStep_holds (hr : engine.functions.Regular) (hf : f.Loose) {e : Expr} (he : e.WindowFree)
    (hL : e.Labels L) : InStep f L fun i => (e.evaluator engine).holds engine i where
  first hsize d hd := (alwaysSafe_holds hr he 0).safe fun b d' hs =>
    (steady_merged engine hsize).holds (.inl trivial) 0 (.inl hd) hs
  column i hi d hd := (alwaysSafe_holds hr he i).safe fun b d' hs =>
    (steady_column engine hf).holds (.inl trivial) i hd hs
  beside i hi c d c' b hcd hs := by
    rcases ((abreast engine L hi hf).holds ⟨he, hL⟩ (x := ()) rfl).follows hcd hs with
      hc' | hd' | ⟨_, _, _, he⟩
    · exact .inl hc'
    · exact .inr ⟨b, hd'⟩
    · exact he.elim

end Step

end TableQuery
