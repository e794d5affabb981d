/-
What is remembered is what would be computed.

An evaluation that remembers values is put beside one that computes every value anew. The two contexts
differ in what is remembered and in which columns were noticed, for a remembered value is not looked at
again. What holds of every remembered value is that computing it anew gives the same, now and whatever
becomes of the row (`Context.Faithful`); this takes that no two expressions share a label
(`Expr.Family`).

* `Context.Mirrors` — contexts of the two evaluations;
* `Step.mirrored_values`, `Step.mirrored_holds` — what is done in a row keeps to it;
* `Step.Mirrored.rows`, `Step.Mirrored.rows_behind` — what is done in every row does.
-/
import TableQuery.Proofs.Coupled
import TableQuery.Proofs.Uniform

namespace TableQuery

/-- Expressions with all their operands, of which no two remember values under the same label. -/
structure Expr.Family (A : Expr → Prop) : Prop where
  operand : ∀ {e p}, A e → p ∈ e.operands → A p
  eq_of_label : ∀ {e e'}, A e → A e' → e.isRemembered = true → e'.isRemembered = true →
    e.label = e'.label → e = e'

/-- No two of the expressions remember values under the same label. -/
def Expr.LabelsApart (A : Expr → Prop) : Prop :=
  ∀ ⦃e e' : Expr⦄, A e → A e' → e.isRemembered = true → e'.isRemembered = true →
    e.label = e'.label → e = e'

theorem Expr.Family.apart {A : Expr → Prop} (hA : Expr.Family A) : Expr.LabelsApart A :=
  fun _ _ => hA.eq_of_label

theorem Expr.labelsApart_of_nodup {l : List Expr} (h : ((l.filter isRemembered).map label).Nodup) :
    Expr.LabelsApart (· ∈ l) := by
  intro e e' he he' hr hr' hlabel
  exact List.inj_on_of_nodup_map h (List.mem_filter.mpr ⟨he, hr⟩) (List.mem_filter.mpr ⟨he', hr'⟩) hlabel

namespace Context

/-- The value that is remembered for a row under a label. -/
def held? (c : Context) (row : Nat) (label : String) : Option Value :=
  (c.memo[row]?).bind (·.get? label)

/-- The contexts differ in what is remembered, and in which columns were noticed. -/
structure Beside (c d : Context) : Prop where
  same : d = { c with memo := d.memo, sawPlainColumn := d.sawPlainColumn }
  saw : c.sawPlainColumn = true → d.sawPlainColumn = true

/-- Every value that is remembered for the row is that of an expression, and comes out again whatever
becomes of the row in the other context. -/
def Faithful (engine : Engine) (A : Expr → Prop) (W : Prop) (b : Bool) (row : Nat)
    (c d : Context) : Prop :=
  ∀ label v, c.held? row label = some v →
    ∃ e : Expr, A e ∧ (W ∨ e.WindowFree) ∧ e.isRemembered = true ∧ e.label = label ∧
      ∀ j q, Becomes W row j d q →
        Step.Yields ((e.evaluator engine.recomputing).value engine.recomputing j b) q v

/-- A context in which values are remembered beside one in which they are not. In certain rows all
that is remembered is faithful. -/
structure Mirrors (engine : Engine) (A : Expr → Prop) (W : Prop) (b : Bool) (rows : Nat → Prop)
    (c d : Context) : Prop where
  beside : c.Beside d
  size_memo : c.memo.size ≤ c.size
  faithful : ∀ k, rows k → Faithful engine A W b k c d

/-- Columns and aggregates may have been noticed; nothing else has changed. -/
structure Notices (c d : Context) : Prop where
  same : d = { c with sawPlainColumn := d.sawPlainColumn, aggregated := d.aggregated }
  aggregated : c.aggregated = true → d.aggregated = true

/-- What has become of a context when one row was looked at: nothing is new in the others, unless the
first row has become the group of all rows. -/
structure Moved (W : Prop) (i : Nat) (c d : Context) : Prop where
  held : ∀ k, k ≠ i → ∀ label v, d.held? k label = some v → c.held? k label = some v
  becomes : ∀ k, k ≠ i → k < d.size → (k = 0 → c.InGroup i ∨ ¬c.InGroup 0) → Becomes W k k c d
  inGroup : c.InGroup i → d.InGroup i

variable {engine : Engine} {A : Expr → Prop} {W : Prop} {b : Bool} {rows : Nat → Prop} {i k : Nat}
  {c d c' d' : Context}

/-! ### Contexts side by side -/

theorem Beside.refl (c : Context) : c.Beside c := ⟨rfl, id⟩

theorem Beside.frame (h : c.Beside d) : d.frame = c.frame := by rw [h.same]

theorem Beside.size (h : c.Beside d) : d.size = c.size := by rw [h.same]; rfl

theorem Beside.resolve (h : c.Beside d) (name : String) : d.resolve name = c.resolve name := by
  rw [h.same]
  rfl

theorem Beside.becomes (h : c.Beside d) (W : Prop) (hi : i < c.size) : Becomes W i i c d :=
  .of_same h.same hi

theorem Beside.becomes_symm (h : c.Beside d) (W : Prop) (hi : i < c.size) : Becomes W i i d c := by
  have hsame : c = { d with memo := c.memo, sawPlainColumn := c.sawPlainColumn } := by rw [h.same]
  exact .of_same hsame (h.size ▸ hi)

theorem Beside.trans_glimpsed (h : c.Beside d) (hd : d.Glimpsed d') : c.Beside d' := by
  refine ⟨?_, fun hsaw => hd.saw (h.saw hsaw)⟩
  rw [hd.same, h.same]

theorem Beside.note (h : c.Beside d) (b : Bool) :
    (if b then c else { c with sawPlainColumn := true }).Beside
      (if b then d else { d with sawPlainColumn := true }) := by
  cases b with
  | true => exact h
  | false =>
    refine ⟨?_, id⟩
    rw [h.same]
    rfl

theorem Beside.wholeGroup (h : c.Beside d) : d.wholeGroup = c.wholeGroup := by
  rw [h.same]
  rfl

theorem Beside.collapse (h : c.Beside d) : c.collapse.Beside d.collapse := by
  have hwhole := h.wholeGroup
  have hframe := h.frame
  constructor
  · rw [collapse_eq, collapse_eq, hwhole, hframe]
    rw [h.same]
  · rw [collapse_eq, collapse_eq]
    exact h.saw

theorem notices_note (c : Context) (b : Bool) :
    c.Notices (if b then c else { c with sawPlainColumn := true }) := by
  cases b <;> exact ⟨rfl, id⟩

theorem notices_aggregated (c : Context) : c.Notices { c with aggregated := true } :=
  ⟨rfl, fun _ => rfl⟩

theorem Notices.becomes (h : c.Notices d) (W : Prop) (hi : i < c.size) : Becomes W i i c d := by
  obtain ⟨hsame, haggregated⟩ := h
  rw [hsame]
  exact ⟨⟨hi, fun _ => rfl, fun _ _ => rfl, fun _ hg => hg, rfl, haggregated⟩,
    .inl ⟨fun _ => rfl, fun _ _ => rfl, rfl, rfl, rfl⟩⟩

/-! ### What is held -/

theorem remember_eq (c : Context) (engine : Engine) (i : Nat) (label : String) (v : Value) :
    c.remember engine i label v = { c with memo := (c.remember engine i label v).memo } := by
  rw [remember]
  split <;> rfl

theorem lt_size_of_held? (h : c.memo.size ≤ c.size) {label : String} {v : Value}
    (hheld : c.held? k label = some v) : k < c.size := by
  refine Nat.lt_of_not_le fun hk => ?_
  rw [held?, Array.getElem?_eq_none (Nat.le_trans h hk)] at hheld
  cases hheld

theorem size_memo_remember (c : Context) (i : Nat) (label : String) (v : Value) :
    (c.remember engine i label v).memo.size = c.memo.size := by
  rw [remember]
  split
  · exact Array.size_modify
  · rfl

theorem held?_remember (c : Context) (i : Nat) (label : String) (v : Value) (k : Nat) (other : String) :
    (c.remember engine i label v).held? k other =
      if engine.remembers = true ∧ i = k ∧ k < c.memo.size ∧ other = label then some v
      else c.held? k other := by
  rw [remember]
  cases engine.remembers with
  | false => simp
  | true =>
    simp only [if_true, true_and]
    rw [held?, Array.getElem?_modify]
    by_cases hik : i = k
    · rw [if_pos hik, Option.bind_map]
      by_cases hk : k < c.memo.size
      · rw [held?, Array.getElem?_eq_getElem hk]
        by_cases hother : other = label
        · rw [if_pos ⟨hik, hk, hother⟩, hother]
          exact Labelled.get?_put_self ..
        · rw [if_neg fun h => hother h.2.2]
          exact Labelled.get?_put_ne _ _ hother
      · rw [if_neg fun h => hk h.2.1, held?, Array.getElem?_eq_none (Nat.le_of_not_lt hk)]
        rfl
    · rw [if_neg hik, if_neg fun h => hik h.1]
      rfl

theorem held?_of_remember {label other : String} {v x : Value}
    (h : (c.remember engine i label v).held? k other = some x) :
    (k = i ∧ other = label ∧ x = v ∧ engine.remembers = true) ∨ c.held? k other = some x := by
  rw [remember] at h
  split at h
  · rw [held?, Array.getElem?_modify] at h
    split at h
    · rename_i hremembers hik
      by_cases hother : other = label
      · subst hother
        cases hm : c.memo[k]? with
        | none =>
          rw [hm] at h
          cases h
        | some m =>
          rw [hm] at h
          exact .inl ⟨hik.symm, rfl, by simpa using h.symm, hremembers⟩
      · rw [Option.bind_map] at h
        simp only [Function.comp_def, fun m : Labelled Value => m.get?_put_ne v hother] at h
        exact .inr h
    · exact .inr h
  · exact .inr h

theorem held?_of_collapse {label : String} {v : Value}
    (h : c.collapse.held? k label = some v) : c.held? k label = some v := by
  rw [collapse_eq, held?] at h
  dsimp only at h
  rw [Array.getElem?_extract] at h
  split at h
  · rwa [Nat.zero_add] at h
  · cases h

theorem size_memo_collapse (c : Context) : c.collapse.memo.size ≤ c.collapse.size := by
  rw [collapse_eq]
  simp [size, Frame.size]

/-! ### Faithful values -/

/-- Faithful values stay faithful when the row becomes another. -/
theorem Faithful.becomes {j : Nat} (h : Faithful engine A W b k c d)
    (hheld : ∀ label v, c'.held? j label = some v → c.held? k label = some v ∧ Becomes W k j d d') :
    Faithful engine A W b j c' d' := by
  intro label v hv
  obtain ⟨hv, hbecomes⟩ := hheld label v hv
  obtain ⟨e, he, hfree, hr, hl, hyields⟩ := h label v hv
  exact ⟨e, he, hfree, hr, hl, fun j q hq => hyields j q (hbecomes.trans hq)⟩

theorem Mirrors.mono {others : Nat → Prop} (h : Mirrors engine A W b rows c d)
    (hrows : ∀ k, others k → rows k) : Mirrors engine A W b others c d :=
  ⟨h.beside, h.size_memo, fun k hk => h.faithful k (hrows k hk)⟩

/-- Before results of windows matter the remembered values do not depend on them. -/
theorem Mirrors.windows (h : Mirrors engine A False b rows c d) : Mirrors engine A W b rows c d := by
  refine ⟨h.beside, h.size_memo, fun k hk label v hv => ?_⟩
  obtain ⟨e, he, hfree, hr, hl, hyields⟩ := h.faithful k hk label v hv
  exact ⟨e, he, .inr (hfree.resolve_left id), hr, hl, fun j q hq => hyields j q (hq.mono False.elim)⟩

/-- What a look at a row leaves of contexts that are noticed only. -/
theorem Mirrors.notices (h : Mirrors engine A W b rows c d) (hc : c.Notices c')
    (hbeside : c'.Beside d') : Mirrors engine A W b rows c' d' := by
  refine ⟨hbeside, ?_, fun k hk => (h.faithful k hk).becomes fun label v hv => ?_⟩
  · rw [hc.same]
    exact h.size_memo
  · have hv' : c.held? k label = some v := by rwa [hc.same] at hv
    have hlt := lt_size_of_held? h.size_memo hv'
    have hlt' : k < c'.size := by
      rw [hc.same]
      exact hlt
    exact ⟨hv', (h.beside.becomes_symm W hlt).trans ((hc.becomes W hlt).trans
      (hbeside.becomes W hlt'))⟩

/-- All rows have become one group in both contexts. -/
theorem Mirrors.collapse (h : Mirrors engine A W b (· = i) c d) (hi : ¬c.InGroup i) :
    Mirrors engine A W b (· = i) c.collapse d.collapse := by
  refine ⟨h.beside.collapse, c.size_memo_collapse, fun k hk => ?_⟩
  subst hk
  refine (h.faithful k rfl).becomes fun label v hv => ?_
  have hk := eq_zero_of_lt_size_collapse (lt_size_of_held? c.size_memo_collapse hv)
  subst hk
  have hv' := held?_of_collapse hv
  have hlt := lt_size_of_held? h.size_memo hv'
  have hi' : ¬d.InGroup 0 := by rwa [InGroup, h.beside.frame]
  exact ⟨hv', (Becomes.refl W (h.beside.size ▸ hlt)).collapse hi'⟩

/-- A value is remembered that comes out again. -/
theorem Mirrors.remember (h : Mirrors engine A W b (· = i) c d) {e : Expr} {v : Value}
    (he : A e ∧ (W ∨ e.WindowFree)) (hr : e.isRemembered = true)
    (hyields : ∀ j q, Becomes W i j d q →
      Step.Yields ((e.evaluator engine.recomputing).value engine.recomputing j b) q v) :
    Mirrors engine A W b (· = i) (c.remember engine i e.label v) d := by
  have hsame := c.remember_eq engine i e.label v
  refine ⟨⟨?_, fun hsaw => h.beside.saw (by rwa [hsame] at hsaw)⟩, ?_, fun k hk label x hx => ?_⟩
  · rw [hsame]
    exact h.beside.same
  · rw [size_memo_remember, hsame]
    exact h.size_memo
  · subst hk
    obtain ⟨-, rfl, rfl, -⟩ | hx := held?_of_remember hx
    · exact ⟨e, he.1, he.2, hr, rfl, hyields⟩
    · exact h.faithful k rfl label x hx

/-! ### Other rows -/

theorem Moved.refl (W : Prop) (i : Nat) (c : Context) : Moved W i c c :=
  ⟨fun _ _ _ _ h => h, fun _ _ hk _ => .refl W hk, id⟩

theorem Moved.notices (h : Moved W i c d) (hd : d.Notices d') : Moved W i c d' where
  held k hk label v hv := h.held k hk label v (by rwa [hd.same] at hv)
  becomes k hk hlt hgroup := by
    have hlt' : k < d.size := by rwa [hd.same] at hlt
    exact (h.becomes k hk hlt' hgroup).trans (hd.becomes W hlt')
  inGroup hi := by
    rw [hd.same]
    exact h.inGroup hi

theorem Moved.remember (h : Moved W i c d) (engine : Engine) (label : String) (v : Value) :
    Moved W i c (d.remember engine i label v) where
  held k hk other x hx := by
    obtain ⟨hki, -⟩ | hx := held?_of_remember hx
    · exact absurd hki hk
    · exact h.held k hk other x hx
  becomes k hk hlt hgroup := by
    have hsame : d.remember engine i label v = { d with
        memo := (d.remember engine i label v).memo
        sawPlainColumn := d.sawPlainColumn } := d.remember_eq engine i label v
    rw [hsame] at hlt
    exact (h.becomes k hk hlt hgroup).trans (.of_same hsame hlt)
  inGroup hi := by
    rw [remember_eq]
    exact h.inGroup hi

theorem Moved.collapse (h : Moved W i c d) (hi : ¬d.InGroup i) : Moved W i c d.collapse where
  held k hk label v hv := h.held k hk label v (held?_of_collapse hv)
  becomes k hk hlt hgroup := by
    have hsize := Nat.pos_of_ne_zero (size_ne_zero_of_collapse hlt)
    obtain rfl := eq_zero_of_lt_size_collapse hlt
    have hfirst : ¬c.InGroup 0 := (hgroup rfl).resolve_left fun hin => hi (h.inGroup hin)
    exact (h.becomes 0 hk hsize hgroup).collapse hfirst
  inGroup hin := absurd (h.inGroup hin) hi

/-- Rows that were not looked at are as faithful as before. -/
theorem Mirrors.next {others : Nat → Prop} (h : Mirrors engine A W b rows c d)
    (h' : Mirrors engine A W b (· = i) c' d') (hmoved : Moved W i c c')
    (hothers : ∀ k, others k → k ≠ i → rows k ∧ (k = 0 → c.InGroup i ∨ ¬c.InGroup 0)) :
    Mirrors engine A W b others c' d' := by
  refine ⟨h'.beside, h'.size_memo, fun k hk => ?_⟩
  by_cases hki : k = i
  · exact h'.faithful k hki
  obtain ⟨hrow, hgroup⟩ := hothers k hk hki
  refine (h.faithful k hrow).becomes fun label v hv => ?_
  have hv' := hmoved.held k hki label v hv
  have hlt := lt_size_of_held? h.size_memo hv'
  have hlt' := lt_size_of_held? h'.size_memo hv
  exact ⟨hv', (h.beside.becomes_symm W hlt).trans ((hmoved.becomes k hki hlt' hgroup).trans
    (h'.beside.becomes W hlt'))⟩

/-- Where nothing is remembered, everything that is remembered is faithful. -/
theorem Mirrors.of_forgotten (h : c.Beside d) (hmemo : c.Forgotten) :
    Mirrors engine A W b rows c d := by
  refine ⟨h, ?_, fun k _ label v hv => ?_⟩
  · rw [hmemo, Array.size_replicate]
  · rw [held?, hmemo, Array.getElem?_replicate] at hv
    split at hv <;> cases hv

@[simp] theorem frame_ofFrame (f : Frame) : (ofFrame f).frame = f := frame_rebuildFields _

@[simp] theorem size_ofFrame (f : Frame) : (ofFrame f).size = f.size :=
  congrArg Frame.size (frame_ofFrame f)

theorem forgotten_ofFrame (f : Frame) : (ofFrame f).Forgotten := by
  rw [ofFrame]
  obtain ⟨direct, ambiguous, hc⟩ := rebuildFields_eq _
  rw [hc]
  rfl

end Context

namespace Step

open Context

variable {engine : Engine} {A : Expr → Prop} {W : Prop} {b : Bool} {i : Nat} {start c d : Context}
  {α β : Type}

/-- What is kept while row `i` is looked at. -/
def Mirroring (engine : Engine) (A : Expr → Prop) (W : Prop) (b : Bool) (i : Nat)
    (start c d : Context) : Prop :=
  Mirrors engine A W b (· = i) c d ∧ Moved W i start c

/-- Steps that look at row `i`, of which one remembers values and the other computes them anew. -/
abbrev Mirrored (engine : Engine) (A : Expr → Prop) (W : Prop) (b : Bool) (i : Nat)
    (start : Context) (s t : Step α) : Prop :=
  Simulates (Mirroring engine A W b i start) (· = .mixedAggregate) s t

theorem mirroring_note (hcd : Mirroring engine A W b i start c d) (b' : Bool) :
    Mirroring engine A W b i start (if b' then c else { c with sawPlainColumn := true })
      (if b' then d else { d with sawPlainColumn := true }) :=
  ⟨hcd.1.notices (c.notices_note b') (hcd.1.beside.note b'), hcd.2.notices (c.notices_note b')⟩

theorem mirrored_readField (name : String) :
    Mirrored engine A W b i start (readField name i b) (readField name i b) := by
  intro c d hcd
  have hframe := hcd.1.beside.frame
  rw [readField_apply, readField_apply, hcd.1.beside.resolve]
  cases c.resolve name with
  | error e => exact .error e
  | ok table =>
    have hcell : ((d.frame.view? table).map (·.value i name)).getD .null =
        ((c.frame.view? table).map (·.value i name)).getD .null := by rw [hframe]
    dsimp only
    rw [hcell]
    exact .ok _ (mirroring_note hcd b)

theorem mirrored_readQualified (table name : String) :
    Mirrored engine A W b i start (readQualified table name i b)
      (readQualified table name i b) := by
  intro c d hcd
  have hview : d.frame.view? table = c.frame.view? table := by rw [hcd.1.beside.frame]
  have hcollapsed : d.collapsed = c.collapsed := by rw [hcd.1.beside.same]
  rw [readQualified_apply, readQualified_apply, hview]
  cases c.frame.view? table with
  | none =>
    rw [hcollapsed]
    exact .error _
  | some v =>
    dsimp only
    split
    · exact .ok _ (mirroring_note hcd b)
    · exact .error _

theorem mirrored_readWindow (label : String) :
    Mirrored engine A W b i start (readWindow label i) (readWindow label i) := by
  intro c d hcd
  have hframe := hcd.1.beside.frame
  have hempty : d.sourceEmpty = c.sourceEmpty := by rw [hcd.1.beside.same]
  rw [readWindow_apply, readWindow_apply, hframe, hempty]
  split
  · exact .ok _ hcd
  · cases (c.frame.rows[i]?).bind (·.windows.get? label) with
    | none => exact .error _
    | some v => exact .ok v hcd

theorem mirrored_groupOf : Mirrored engine A W b i start (groupOf i) (groupOf i) := by
  intro c d hcd
  have hframe := hcd.1.beside.frame
  cases hg : (c.frame.rows[i]?).bind (·.group) with
  | some g =>
    have hg' : (d.frame.rows[i]?).bind (·.group) = some g := by rw [hframe, hg]
    rw [groupOf_of_group hg, groupOf_of_group hg']
    refine .ok g ⟨hcd.1.notices c.notices_aggregated ⟨?_, hcd.1.beside.saw⟩,
      hcd.2.notices c.notices_aggregated⟩
    rw [hcd.1.beside.same]
  | none =>
    have hg' : (d.frame.rows[i]?).bind (·.group) = none := by rw [hframe, hg]
    have hi : ¬c.InGroup i := by
      rw [InGroup, hg]
      exact Bool.false_ne_true
    -- only the context without memory may have noticed a column
    cases hsaw : d.sawPlainColumn with
    | true =>
      rw [groupOf_of_sawPlainColumn hg' hsaw]
      exact .excused rfl
    | false =>
      have hsaw' : c.sawPlainColumn = false := by
        cases hc : c.sawPlainColumn with
        | false => rfl
        | true => exact absurd (hsaw.symm.trans (hcd.1.beside.saw hc)) Bool.false_ne_true
      rw [groupOf_of_none hg hsaw', groupOf_of_none hg' hsaw, hcd.1.beside.wholeGroup]
      exact .ok _ ⟨hcd.1.collapse hi, hcd.2.collapse hi⟩

/-- A remembered value is one that comes out again, and a new one is remembered with that in mind. -/
theorem mirrored_value (hA : Expr.Family A) {e : Expr} (he : A e ∧ (W ∨ e.WindowFree))
    (h : Mirrored engine A W b i start ((e.evaluator engine).compute i b)
      ((e.evaluator engine.recomputing).compute i b)) :
    Mirrored engine A W b i start ((e.evaluator engine).value engine i b)
      ((e.evaluator engine.recomputing).value engine.recomputing i b) := by
  have hl := e.label?_evaluator engine
  have hl' := e.label?_evaluator engine.recomputing
  rw [Expr.rememberedLabel?] at hl hl'
  by_cases hr : e.isRemembered = true
  · rw [if_pos hr] at hl hl'
    intro c d hcd
    have hkeys : (c.frame.rows[i]?).bind (·.keys.get? e.label) =
        d.remembered? engine.recomputing i e.label := by
      rw [← hcd.1.beside.frame]
      rfl
    have hremembered : c.remembered? engine i e.label =
        (if engine.remembers then c.held? i e.label else none).or
          (d.remembered? engine.recomputing i e.label) := by
      rw [Context.remembered?, hkeys]
      rfl
    -- The two sides look up the same keys. They differ where the first one holds a value in its memory:
    -- the other one computes it anew, and being faithful says what comes out.
    cases hheld : (if engine.remembers then c.held? i e.label else none) with
    | some v =>
      rw [hheld, Option.some_or] at hremembered
      have hv : c.held? i e.label = some v := by
        split at hheld
        · exact hheld
        · cases hheld
      obtain ⟨e', he', -, hr', hlabel, hyields⟩ := hcd.1.faithful i rfl e.label v hv
      -- labels differ, so what was remembered is the value of `e` and of no other expression
      obtain rfl := hA.eq_of_label he' he.1 hr' hr hlabel
      rw [Evaluator.value_of_remembered hl hremembered]
      have hlt := hcd.1.beside.size ▸ lt_size_of_held? hcd.1.size_memo hv
      rcases hyields i d (.refl W hlt) with ⟨p, hp, hglimpsed⟩ | ⟨p, hp⟩
      · rw [hp]
        have hbeside := hcd.1.beside.trans_glimpsed hglimpsed
        exact .ok v ⟨hcd.1.notices ⟨rfl, id⟩ hbeside, hcd.2⟩
      · rw [hp]
        exact .excused rfl
    | none =>
      rw [hheld, Option.none_or] at hremembered
      cases hd : d.remembered? engine.recomputing i e.label with
      | some v =>
        rw [Evaluator.value_of_remembered hl (hremembered.trans hd),
          Evaluator.value_of_remembered hl' hd]
        exact .ok v hcd
      | none =>
        have hvalue := Evaluator.value_of_not_remembered hl' hd b
        rw [Evaluator.value_of_not_remembered hl (hremembered.trans hd), hvalue]
        have hcompute := h hcd
        generalize (e.evaluator engine).compute i b c = r at hcompute ⊢
        generalize (e.evaluator engine.recomputing).compute i b d = r' at hcompute hvalue ⊢
        cases hcompute with
        | ok x hcd' =>
          -- the new value comes out again because an evaluation without memory can be repeated
          refine .ok x ⟨hcd'.1.remember he hr fun j q hq => ?_, hcd'.2.remember engine e.label x⟩
          exact repeatable_evaluate rfl he.2 b hvalue (hq.revisits b)
        | error e => exact .error e
        | excused he => exact .excused he
  · rw [if_neg hr] at hl hl'
    rw [Evaluator.value_of_label?_eq_none hl, Evaluator.value_of_label?_eq_none hl']
    exact h

/-! ### Loops -/

/-- A look at row `i` in contexts of which certain rows are faithful. -/
theorem Mirrored.couples {s t : Step α} (h : ∀ start, Mirrored engine A W b i start s t)
    {rows others : Nat → Prop} :
    Couples (fun c d => Mirrors engine A W b rows c d ∧ rows i ∧
        ∀ k, others k → k ≠ i → rows k ∧ (k = 0 → c.InGroup i ∨ ¬c.InGroup 0)) s t
      fun _ => Mirrors engine A W b others := by
  rintro c d ⟨hcd, hi, hothers⟩
  have hstart : Mirroring engine A W b i c c d :=
    ⟨hcd.mono fun k hk => by rw [hk]; exact hi, .refl W i c⟩
  have hst := Couples.of_simulates (h c) hstart
  generalize s c = r at hst ⊢
  generalize t d = r' at hst ⊢
  cases hst with
  | ok h' => exact .ok (hcd.next h'.1 h'.2 hothers)
  | error e => exact .error e
  | mixed => exact .mixed _ _

/-- In a loop that comes by every row once only the rows behind need to be faithful. -/
theorem Mirrored.couples_behind {s t : Step α} (h : ∀ start, Mirrored engine A W b i start s t) :
    Couples (Mirrors engine A W b (i ≤ ·)) s t fun _ => Mirrors engine A W b (i + 1 ≤ ·) := by
  refine (couples h).mono (fun c d hcd => ⟨hcd, Nat.le_refl i, fun k hk _ => ⟨?_, ?_⟩⟩)
    fun _ _ _ h => h
  · exact Nat.le_of_succ_le hk
  · intro hzero
    omega

/-- Actions in all rows, none of which is looked at later on. -/
theorem Mirrored.rows_behind {f g : Nat → Step α}
    (h : ∀ i start, Mirrored engine A W b i start (f i) (g i)) :
    Couples (Mirrors engine A W b fun _ => True) (rows f) (rows g)
      fun as => Mirrors engine A W b (as.size ≤ ·) := by
  refine (Couples.rows_from (T := fun i => Mirrors engine A W b (i ≤ ·))
    (fun i c d hcd => hcd.beside.size) fun i => ?_).mono
    (fun c d hcd => hcd.mono fun _ _ => trivial) fun _ _ _ h => h
  exact (couples_behind (h i)).mono (fun c d hcd => hcd.1) fun _ _ _ h => h

/-- Actions in all rows. -/
theorem Mirrored.rows {f g : Nat → Step α}
    (h : ∀ i start, Mirrored engine A W b i start (f i) (g i))
    (hg : ∀ i, Ensures (Uniform False 0) (g i) fun _ => Uniform False 0) :
    Couples (fun c d => Mirrors engine A W b (fun _ => True) c d ∧ d.Uniform False 0) (rows f)
      (rows g) fun _ c d => Mirrors engine A W b (fun _ => True) c d ∧ d.Uniform False 0 := by
  refine Couples.rows_from (T := fun _ c d => Mirrors engine A W b (fun _ => True) c d ∧
    d.Uniform False 0) (fun i c d hcd => hcd.1.beside.size) fun i => ?_
  refine ((couples (h i)).ensures (hg i)).mono (fun c d hcd => ⟨⟨hcd.1.1, trivial, ?_⟩, hcd.1.2⟩)
    fun _ _ _ h => h
  obtain ⟨⟨hcd, hd⟩, hi⟩ := hcd
  refine fun k _ _ => ⟨trivial, fun _ => ?_⟩
  have hin := hd.inGroup (hcd.beside.size ▸ hi)
  rwa [InGroup, InGroup, hcd.beside.frame] at hin

/-- The arguments of an aggregate are evaluated in a context of their own. -/
theorem matches_aggregateOver (name : String)
    (h : Tuples → Bool → Option Quantifier → Except FunctionError Value) (q : Option Quantifier)
    {f g : Nat → Step (List Value)}
    (hf : ∀ i start, Mirrored engine A W true i start (f i) (g i)) (group : Frame) :
    Matches (aggregateOver name h f q group) (aggregateOver name h g q group) := by
  rw [aggregateOver, aggregateOver]
  refine Matches.bind ?_ fun tuples => .refl _
  have hstart : Mirrors engine A W true (fun _ => True) (.ofFrame group) (.ofFrame group) :=
    .of_forgotten (.refl _) (forgotten_ofFrame group)
  exact (Mirrored.rows_behind hf).runIn hstart

theorem mirrored_lift {r r' : Except ExecutionError α} (h : Matches r r') :
    Mirrored engine A W b i start (lift r) (lift r') := by
  rcases h with rfl | rfl
  · exact .lift r
  · exact fun c d _ => .excused rfl

/-! ### Evaluation -/

/-- The simulation of an evaluation that remembers values by one that does not. An index is a row, its
context at the start, and whether this is for an aggregate. -/
def mirror (hA : Expr.Family A) (W : Prop) : Simulation engine engine.recomputing where
  Index := Nat × Context × Bool
  row x := x.1
  otherRow x := x.1
  inAggregate x := x.2.2
  relation x := .simulates (Mirroring engine A W x.2.2 x.1 x.2.1) (· = .mixedAggregate)
  admits e := A e ∧ (W ∨ e.WindowFree)
  operand h hp := ⟨hA.operand h.1 hp, h.2.imp_right fun h => h.operand hp⟩
  readField _ name := mirrored_readField name
  readQualified _ table name := mirrored_readQualified table name
  readWindow _ _ _ _ _ _ := mirrored_readWindow _
  call x _ name q f g _ _ hf := by
    refine StepRelation.call (.simulates _ _) rfl (fun _ _ _ _ _ => trivial) (fun _ _ => hf x)
      fun h _ => ?_
    have hrow : ∀ i start, Mirrored engine A W true i start (f i true) (g i true) :=
      fun i start => hf (i, start, true)
    refine mirrored_groupOf.bind fun group => mirrored_lift ?_
    exact matches_aggregateOver name h q hrow group
  value _ _ he h := mirrored_value hA he h

theorem mirrored_evaluate (hA : Expr.Family A) {e : Expr} (he : A e ∧ (W ∨ e.WindowFree)) (b : Bool)
    (i : Nat) (start : Context) : Mirrored engine A W b i start
      ((e.evaluator engine).value engine i b)
      ((e.evaluator engine.recomputing).value engine.recomputing i b) :=
  (mirror hA W).evaluate he (i, start, b)

theorem mirrored_values (hA : Expr.Family A) {es : List Expr}
    (hes : ∀ e ∈ es, A e ∧ (W ∨ e.WindowFree)) (b : Bool) (i : Nat) (start : Context) :
    Mirrored engine A W b i start (Evaluator.values engine (Expr.evaluators engine es) i b)
      (Evaluator.values engine.recomputing (Expr.evaluators engine.recomputing es) i b) :=
  (mirror hA W).values hes (i, start, b)

theorem mirrored_holds (hA : Expr.Family A) {e : Expr} (he : A e ∧ (W ∨ e.WindowFree)) (i : Nat)
    (start : Context) : Mirrored engine A W false i start ((e.evaluator engine).holds engine i)
      ((e.evaluator engine.recomputing).holds engine.recomputing i) :=
  (mirror hA W).holds he (x := (i, start, false)) rfl

end Step

end TableQuery
