/-
What a condition leaves of the rows of a source.

A condition keeps some of the rows, of which nothing is known but their cells, or it calls an aggregate. That
makes one group of all rows, in the first row if at all: before a column is read every row answers like the
first one, and afterwards rows do not become a group any more. So what is left are rows of the source, or a
single row that stands for a group and has no cells.

* `Context.StandsFor` — the single row, and what the members of its group are offered;
* `Context.Following` — a row that is looked at like the first one was;
* `Step.frame_of_rows_holds` — a condition in all rows;
* `Step.bare_or_standsFor_of_filter` — what it leaves.
-/
import TableQuery.Proofs.Arguments
import TableQuery.Proofs.FirstRow
import TableQuery.Proofs.Uniform

namespace TableQuery

namespace Context

variable {engine : Engine} {s c d : Context} {g : Frame} {i : Nat}

/-- There is a single row, of which nothing is known but its group, and there are no columns. The group has
rows, of which no keys are known. -/
structure StandsFor (g : Frame) (c : Context) : Prop where
  void : c.Void
  rows : c.frame.rows = #[{ group := some g }]
  nonempty : g.size ≠ 0
  keyless : ∀ r ∈ g.rows, r.keys = .empty

namespace StandsFor

theorem congr (h : c.StandsFor g) (hframe : d.frame = c.frame) (hdirect : d.direct = c.direct)
    (hambiguous : d.ambiguous = c.ambiguous) : d.StandsFor g :=
  ⟨⟨hframe ▸ h.void.views, hdirect.trans h.void.direct, hambiguous.trans h.void.ambiguous⟩,
    hframe ▸ h.rows, h.nonempty, h.keyless⟩

theorem touched {rows : Nat → Prop} (h : c.StandsFor g) (t : c.Touched rows d) : d.StandsFor g :=
  h.congr t.frame t.direct t.ambiguous

theorem size (h : c.StandsFor g) : c.size = 1 := by
  rw [Context.size, Frame.size, h.rows]
  rfl

theorem group (h : c.StandsFor g) : (c.frame.rows[0]?).bind (·.group) = some g := by
  rw [h.rows]
  rfl

theorem windows (h : c.StandsFor g) (label : String) :
    (c.frame.rows[i]?).bind (·.windows.get? label) = none := by
  rw [h.rows]
  cases i <;> rfl

theorem keys (h : c.StandsFor g) (label : String) :
    (c.frame.rows[i]?).bind (·.keys.get? label) = none := by
  rw [h.rows]
  cases i <;> rfl

/-- Every member of the group is offered what is found in the row that stands for it. -/
theorem offers {k : Nat} (h : c.StandsFor g) (hc : c.Loaded) (hk : k < g.size) :
    c.Offers 0 k (ofFrame g) := by
  have hk' : k < (ofFrame g).size := hk.trans_eq (size_ofFrame g).symm
  have hfirst : 0 < c.size := Nat.lt_of_lt_of_eq Nat.zero_lt_one h.size.symm
  refine h.void.offers h.windows (fun label => ?_) ?_ ?_
  · rw [h.keys, frame_ofFrame, Array.getElem?_eq_getElem hk, Option.bind_some,
      h.keyless _ (Array.getElem_mem hk)]
    rfl
  · exact (sourceEmpty_ofFrame g).trans hc.sourceEmpty.symm
  · rw [(forgotten_ofFrame g).memo hk', hc.forgotten.memo hfirst]

end StandsFor

/-- An aggregate makes a row that stands for all. -/
theorem standsFor_collapse (hempty : c.sourceEmpty = false) (hsize : c.size ≠ 0)
    (hrows : ∀ r ∈ c.frame.rows, ∃ f, r = { group := f }) : c.collapse.StandsFor c.frame where
  void := c.void_collapse
  rows := by
    have hpos : 0 < c.frame.rows.size := Nat.pos_of_ne_zero hsize
    have hone : c.collapse.frame.rows.size = 1 := size_collapse hsize
    have hfirst := c.getElem?_rows_collapse
    obtain ⟨f, hf⟩ := hrows _ (Array.getElem_mem hpos)
    rw [Array.getElem?_eq_getElem hpos, hf, wholeGroup, hempty] at hfirst
    refine Array.ext_getElem? fun k => ?_
    cases k with
    | zero => exact hfirst
    | succ k => rw [Array.getElem?_eq_none (by omega), Array.getElem?_eq_none (by simp)]
  nonempty := hsize
  keyless r hr := by
    obtain ⟨f, rfl⟩ := hrows r hr
    rfl

/-- Row `i` of the second context is looked at like the first row of the first context. Nothing has been
noted before, and nothing else was remembered about either row. -/
structure Following (s : Context) (i : Nat) (c d : Context) : Prop where
  first : s.Touched (· < 1) c
  other : s.Touched (· < i + 1) d
  unseen : d.sawPlainColumn = false
  memo : d.memo[i]? = c.memo[0]?

namespace Following

theorem remembered? (h : Following s i c d) (hs : s.Bare) (engine : Engine) (label : String) :
    d.remembered? engine i label = c.remembered? engine 0 label := by
  rw [Context.remembered?, Context.remembered?, h.memo, h.first.frame, h.other.frame,
    hs.state (f := (·.keys.get? label)) rfl i, hs.state (f := (·.keys.get? label)) rfl 0]

theorem remember (h : Following s i c d) (engine : Engine) (label : String) (v : Value) :
    Following s i (c.remember engine 0 label v) (d.remember engine i label v) where
  first := h.first.remember Nat.zero_lt_one engine label v
  other := h.other.remember (Nat.lt_succ_self i) engine label v
  unseen := by
    rw [remember_eq]
    exact h.unseen
  memo := by
    rw [Context.remember, Context.remember]
    cases engine.remembers with
    | false => exact h.memo
    | true =>
      show (d.memo.modify i _)[i]? = (c.memo.modify 0 _)[0]?
      rw [Array.getElem?_modify, Array.getElem?_modify, if_pos rfl, if_pos rfl, h.memo]

/-- A row that was not looked at yet is like the first row at the beginning. -/
theorem of_touched (hs : s.Forgotten) (hi : i < s.size) (t : s.Touched (· < i) d)
    (hd : d.sawPlainColumn = false) : Following s i s d where
  first := .refl _ s
  other := t.mono fun _ hk => Nat.lt_succ_of_lt hk
  unseen := hd
  memo := by rw [t.memo i (Nat.lt_irrefl i), hs.memo hi, hs.memo (Nat.zero_lt_of_lt hi)]

end Following

end Context

namespace Step

open Context

variable {engine : Engine} {s c d : Context} {e : Expr} {i : Nat}

/-- The evaluation of an expression in a row of a source follows that in the first row, until a column is
noticed or all rows become one group. -/
def following (engine : Engine) (hs : s.Bare) (hempty : s.sourceEmpty = false) (hsize : s.size ≠ 0)
    (i : Nat) : SelfSimulation engine where
  Index := Unit
  row _ := 0
  otherRow _ := i
  inAggregate _ := false
  relation _ := .follows Noticed (Following s i) fun _ => False
  admits _ := True
  operand _ _ := trivial
  readField _ name := by
    constructor
    · intro c x c' _ h
      exact .inl (by rw [(readField_eq_ok h).2])
    · intro c d x c' _ h
      exact .inl (.inl (by rw [(readField_eq_ok h).2]))
  readQualified _ table name := by
    constructor
    · intro c x c' _ h
      exact .inl (by rw [(readQualified_eq_ok h).2])
    · intro c d x c' _ h
      exact .inl (.inl (by rw [(readQualified_eq_ok h).2]))
  readWindow _ f p o extent _ := by
    constructor
    · intro c x c' hc h
      rwa [readWindow_eq_ok h]
    · intro c d x c' hcd h
      -- no window has a result in the first row
      rw [readWindow_apply, hcd.first.sourceEmpty, hempty, hcd.first.frame,
        hs.state (f := (·.windows.get? _)) rfl 0] at h
      cases h
  call _ _ name q f _ _ hf := by
    let r : StepRelation := .follows Noticed (Following s i) fun _ => False
    refine r.call rfl (fun _ _ _ _ _ => trivial) (fun _ _ => hf) fun h _ =>
      r.bind ⟨fun hc he => (steady_noticed engine).groupOf trivial 0 hc he, fun {c d _ c'} hcd he => ?_⟩
        fun group => r.lift fun _ _ => trivial
    refine .inl (.inr ?_)
    obtain ⟨hin, -, rfl⟩ | ⟨-, -, rfl⟩ := groupOf_eq_ok he
    · exact hin
    · rw [InGroup, group_collapse (hcd.first.size.trans_ne hsize)]
      rfl
  value _ e _ h := h.value (fun label x hc => (steady_noticed engine).remember 0 label x hc)
    (fun _ hcd => hcd.remembered? hs engine _) fun x _ hcd => hcd.remember engine _ x

/-- Rows of a source stay as they are, or one of them comes to stand for all. -/
theorem steady_standing (engine : Engine) (hs : s.Bare) (hsize : s.size ≠ 0) :
    Steady engine True fun c => c.sourceEmpty = false ∧ (c.frame = s.frame ∨ ∃ g, c.StandsFor g) where
  note h := ⟨h.1, h.2.imp_right fun ⟨g, hg⟩ => ⟨g, hg.congr rfl rfl rfl⟩⟩
  remember {c} i label v h := by
    have t := (Touched.refl (fun _ => True) c).remember (i := i) trivial engine label v
    exact ⟨t.sourceEmpty.trans h.1, h.2.imp (t.frame.trans ·) fun ⟨g, hg⟩ => ⟨g, hg.touched t⟩⟩
  groupOf _ i := by
    intro c f d hc he
    obtain ⟨-, -, rfl⟩ | ⟨-, -, rfl⟩ := groupOf_eq_ok he
    · exact ⟨hc.1, hc.2.imp_right fun ⟨g, hg⟩ => ⟨g, hg.congr rfl rfl rfl⟩⟩
    · refine ⟨by rw [collapse_eq]; exact hc.1, .inr ⟨c.frame, standsFor_collapse hc.1 ?_ ?_⟩⟩
      · rcases hc.2 with hframe | ⟨g, hg⟩
        · rwa [size, hframe]
        · rw [hg.size]
          exact Nat.one_ne_zero
      · intro r hr
        rcases hc.2 with hframe | ⟨g, hg⟩
        · exact ⟨none, hs r (hframe ▸ hr)⟩
        · rw [hg.rows] at hr
          exact ⟨some g, by simpa using hr⟩

/-- A loop over rows begins with the first row. -/
theorem exists_first_of_rows {α : Type} {action : Nat → Step α} {as : Array α} (hsize : c.size ≠ 0)
    (h : rows action c = .ok as d) : ∃ a c', action 0 c = .ok a c' := by
  obtain ⟨n, hn⟩ := Nat.exists_eq_succ_of_ne_zero hsize
  rw [rows, get_bind, hn, rowsAfter, get_bind, hn] at h
  simp only [Array.size_empty, Nat.zero_lt_succ, if_true] at h
  obtain ⟨a, c', ha, -⟩ := exists_of_bind_eq_ok h
  exact ⟨a, c', ha⟩

/-- Once the first row has read a column, rows do not become one group any more. -/
theorem frame_of_rows_of_column (hs : s.Bare) {b : Bool} {truths : Array Bool}
    (hfirst : (e.evaluator engine).holds engine 0 s = .ok b c) (hframe : c.frame = s.frame)
    (hsaw : c.sawPlainColumn = true)
    (h : rows (fun i => (e.evaluator engine).holds engine i) s = .ok truths d) : d.frame = s.frame := by
  have hloose : s.frame.Loose :=
    ⟨fun i => hs.state rfl i, fun i label => hs.state (f := (·.keys.get? label)) rfl i⟩
  have hstep : ∀ i, Ensures (fun d => ((i = 0 ∧ d = s) ∨ (d.frame = s.frame ∧
      d.sawPlainColumn = true)) ∧ i < d.size) ((e.evaluator engine).holds engine i)
      fun _ d => (i + 1 = 0 ∧ d = s) ∨ (d.frame = s.frame ∧ d.sawPlainColumn = true) := by
    rintro i d a d' ⟨⟨rfl, rfl⟩ | hd, -⟩ he
    · cases hfirst.symm.trans he
      exact .inr ⟨hframe, hsaw⟩
    · exact .inr ((steady_column engine hloose).holds (.inl trivial) i hd he)
  rcases Ensures.rows_from hstep (.inl ⟨rfl, rfl⟩) h with ⟨-, rfl⟩ | ⟨hd, -⟩
  · rfl
  · exact hd

/-- If the first row has noted nothing, every other row is looked at like it and notes nothing. -/
theorem frame_of_rows_of_unnoticed (hs : s.Bare) (hc : s.Loaded) (hsize : s.size ≠ 0) {b : Bool}
    {truths : Array Bool} (hfirst : (e.evaluator engine).holds engine 0 s = .ok b c)
    (hnoticed : ¬c.Noticed)
    (h : rows (fun i => (e.evaluator engine).holds engine i) s = .ok truths d) : d.frame = s.frame := by
  have hempty := hc.sourceEmpty
  have hstep : ∀ i, Ensures (fun d => (s.Touched (· < i) d ∧ d.sawPlainColumn = false) ∧ i < d.size)
      ((e.evaluator engine).holds engine i)
      fun _ d => s.Touched (· < i + 1) d ∧ d.sawPlainColumn = false := by
    rintro i d a d' ⟨⟨t, hd⟩, hi⟩ he
    have hfollowing := Following.of_touched hc.forgotten (t.size ▸ hi) t hd
    rcases ((following engine hs hempty hsize i).holds trivial (x := ()) rfl).follows hfollowing hfirst
      with hnot | ⟨d'', he', hd'⟩ | ⟨_, _, _, herror⟩
    · exact absurd hnot hnoticed
    · cases he.symm.trans he'
      exact ⟨hd'.other, hd'.unseen⟩
    · exact herror.elim
  exact (Ensures.rows_from hstep ⟨.refl _ s, hc.unseen⟩ h).1.frame

/-- While a condition is tried in all rows of a source these stay as they are, or the first one comes to
stand for all of them and is the only one in which the condition is tried. -/
theorem frame_of_rows_holds (hs : s.Bare) (hc : s.Loaded) {truths : Array Bool}
    (h : rows (fun i => (e.evaluator engine).holds engine i) s = .ok truths d) :
    d.frame = s.frame ∨ (truths.size = 1 ∧ ∃ g, d.StandsFor g) := by
  by_cases hsize : s.size = 0
  · rw [rows, get_bind, hsize] at h
    cases h
    exact .inl rfl
  have hempty := hc.sourceEmpty
  obtain ⟨b, c, hfirst⟩ := exists_first_of_rows hsize h
  obtain ⟨-, hframe | ⟨g, hg⟩⟩ :=
    (steady_standing engine hs hsize).holds (.inl trivial) 0 ⟨hempty, .inl rfl⟩ hfirst
  · refine .inl ?_
    by_cases hsaw : c.sawPlainColumn = true
    · exact frame_of_rows_of_column hs hfirst hframe hsaw h
    · refine frame_of_rows_of_unnoticed hs hc hsize hfirst ?_ h
      rintro (h | h)
      · exact hsaw h
      · rw [InGroup, hframe] at h
        exact hs.not_inGroup 0 h
  · -- no other row is left in which the condition could be tried
    cases h.symm.trans (rows_of_one hsize hfirst hg.size)
    exact .inr ⟨rfl, g, hg⟩

/-- Of the rows of a source a condition leaves some, or a single row that stands for a group. -/
theorem bare_or_standsFor_of_filter (hs : s.Bare) (hc : s.Loaded)
    (h : filter engine e s = .ok ⟨⟩ d) (hsize : d.size ≠ 0) : d.Bare ∨ ∃ g, d.StandsFor g := by
  rw [filter] at h
  obtain ⟨truths, c, hrows, h⟩ := exists_of_bind_eq_ok h
  cases h
  rcases frame_of_rows_holds hs hc hrows with hframe | ⟨hone, g, hg⟩
  · refine .inl (Frame.bare_take (f := c.frame) ?_ (truePlaces truths))
    rwa [hframe]
  · obtain ⟨b, rfl⟩ := Array.size_eq_one_iff.mp hone
    cases b with
    | false => exact absurd rfl hsize
    | true =>
      refine .inr ⟨g, ⟨hg.void.take _, hg.void.direct, hg.void.ambiguous⟩, ?_, hg.nonempty, hg.keyless⟩
      show (c.frame.take [0]).rows = _
      rw [Frame.take, hg.rows]
      rfl

end Step

end TableQuery
