/-
Rows that are near to one another.

A row may have been looked at before, so that more is remembered about it than about the same row in another
context. As long as what is remembered is what would be computed, this makes no difference: parts of which
the amounts are remembered on one side are computed on the other one. All else has to be remembered alike.

* `Context.Near` — rows of two contexts that are the same but for amounts of parts that are remembered;
* `Step.near_values` — a list of expressions that has values in one of the rows has them in the other, unless
  an aggregate has taken all columns away.
-/
import TableQuery.Proofs.Vouching

namespace TableQuery

namespace Context

variable {engine : Engine} {parts : Expr → Prop} {fields : List String} {row : Row} {i j : Nat}
  {c d c' d' : Context}

/-- The rows are the same, but for amounts of parts that are remembered. -/
structure Near (engine : Engine) (parts : Expr → Prop) (row : Row) (i j : Nat) (c d : Context) :
    Prop where
  frame : c.frame.SameRow i j d.frame
  direct : c.direct = d.direct
  ambiguous : c.ambiguous = d.ambiguous
  collapsed : c.collapsed = d.collapsed
  sourceEmpty : c.sourceEmpty = d.sourceEmpty
  held : i < c.memo.size ↔ j < d.memo.size
  vouches : c.Vouches engine parts row i
  otherVouches : d.Vouches engine parts row j
  others : ∀ label, (∀ r, parts r → r.isRemembered = true → r.label ≠ label) →
    d.remembered? engine j label = c.remembered? engine i label

/-- There is a memory of both rows or of none. -/
theorem SameRow.memo_lt (s : c.SameRow i j d) : i < c.memo.size ↔ j < d.memo.size := by
  have hnone := congrArg (· = none) s.memo
  simp only [Array.getElem?_eq_none_iff, eq_iff_iff] at hnone
  omega

/-- No part needs a memory of its own if there are none. -/
theorem SameRow.near (s : c.SameRow i j d) (engine : Engine) (row : Row) :
    Near engine (fun _ => False) row i j c d :=
  ⟨s.frame, s.direct, s.ambiguous, s.collapsed, s.sourceEmpty, s.memo_lt, fun _ h => h.elim,
    fun _ h => h.elim, fun label _ => (s.remembered? engine label).symm⟩

theorem Near.refl (h : c.Vouches engine parts row i) : Near engine parts row i i c c :=
  ⟨.refl i c.frame, rfl, rfl, rfl, rfl, .rfl, h, h, fun _ _ => rfl⟩

/-- Rows that hold the same are near to the same rows. -/
theorem SameRow.trans_near {k : Nat} {b : Context} (s : b.SameRow k i c)
    (h : Near engine parts row i j c d) : Near engine parts row k j b d where
  frame := s.frame.trans h.frame
  direct := s.direct.trans h.direct
  ambiguous := s.ambiguous.trans h.ambiguous
  collapsed := s.collapsed.trans h.collapsed
  sourceEmpty := s.sourceEmpty.trans h.sourceEmpty
  held := s.memo_lt.trans h.held
  vouches r hpart hr x hx := h.vouches r hpart hr x (by rwa [← s.remembered? engine])
  otherVouches := h.otherVouches
  others label hl := by rw [h.others label hl, s.remembered? engine]

namespace Near

theorem resolve (h : Near engine parts row i j c d) (name : String) : c.resolve name = d.resolve name := by
  rw [Context.resolve, Context.resolve, h.direct, h.ambiguous, h.collapsed]

theorem shows (h : Near engine parts row i j c d) (hc : c.Shows fields row i) :
    d.Shows fields row j := by
  intro name hname
  obtain ⟨x, hx, hcell⟩ := hc name hname
  refine ⟨x, hx, fun table htable => ?_⟩
  rw [← hcell table (h.direct ▸ htable), cell, cell, h.frame.cells]

theorem finds (h : Near engine parts row i j c d) (hc : c.Finds fields) : d.Finds fields := by
  intro name hname
  rw [← h.direct]
  exact hc name hname

theorem note (h : Near engine parts row i j c d) (p q : Bool) :
    Near engine parts row i j { c with sawPlainColumn := p } { d with sawPlainColumn := q } :=
  { h with vouches := h.vouches, otherVouches := h.otherVouches, others := h.others }

theorem noteAggregated (h : Near engine parts row i j c d) (p q : Bool) :
    Near engine parts row i j { c with aggregated := p } { d with aggregated := q } :=
  { h with vouches := h.vouches, otherVouches := h.otherVouches, others := h.others }

/-- What is no part is remembered on both sides. -/
theorem remember (h : Near engine parts row i j c d) {label : String}
    (hl : ∀ r, parts r → r.isRemembered = true → r.label ≠ label) (x : Value) :
    Near engine parts row i j (c.remember engine i label x) (d.remember engine j label x) := by
  have t := (Touched.refl (fun _ => True) c).remember (i := i) trivial engine label x
  have u := (Touched.refl (fun _ => True) d).remember (i := j) trivial engine label x
  refine ⟨t.frame ▸ u.frame ▸ h.frame, ?_, ?_, ?_, ?_, ?_, h.vouches.remember hl x,
    h.otherVouches.remember hl x, fun other hother => ?_⟩
  · rw [t.direct, u.direct, h.direct]
  · rw [t.ambiguous, u.ambiguous, h.ambiguous]
  · rw [t.collapsed, u.collapsed, h.collapsed]
  · rw [t.sourceEmpty, u.sourceEmpty, h.sourceEmpty]
  · rw [size_memo_remember, size_memo_remember, h.held]
  · by_cases hlabel : other = label
    · subst hlabel
      simp only [remembered?_remember_self, h.held, h.others other hother]
    · rw [remembered?_remember_ne hlabel, remembered?_remember_ne hlabel, h.others other hother]

/-- Parts are worked out on both sides. -/
theorem worked (h : Near engine parts row i j c d) (hc : Worked engine parts row i c c')
    (hd : Worked engine parts row j d d') : Near engine parts row i j c' d' := by
  refine ⟨hc.touched.frame ▸ hd.touched.frame ▸ h.frame, ?_, ?_, ?_, ?_, ?_, hc.vouches, hd.vouches,
    fun label hl => ?_⟩
  · rw [hc.touched.direct, hd.touched.direct, h.direct]
  · rw [hc.touched.ambiguous, hd.touched.ambiguous, h.ambiguous]
  · rw [hc.touched.collapsed, hd.touched.collapsed, h.collapsed]
  · rw [hc.touched.sourceEmpty, hd.touched.sourceEmpty, h.sourceEmpty]
  · rw [hc.touched.size_memo, hd.touched.size_memo, h.held]
  · rw [hc.other label hl, hd.other label hl, h.others label hl]

end Near

end Context

namespace Spot

/-- The rows are near to one another, and nothing else has changed since the start. -/
structure Neighbours (engine : Engine) (parts : Expr → Prop) (row : Row) (x : Spot) (c d : Context) :
    Prop where
  near : c.Near engine parts row x.row x.otherRow d
  touched : x.start.Touched (· = x.row) c
  otherTouched : x.otherStart.Touched (· = x.otherRow) d

end Spot

namespace Step

open Context

variable {engine : Engine} {parts : Expr → Prop} {fields : List String} {row : Row} {x : Spot} {i j : Nat}
  {c c' d : Context} {es : List Expr}

/-- A step that agrees with another as long as the columns are there follows it. -/
theorem Follows.of_simulates {α : Type} {lost : Context → Prop} {R : Context → Context → Prop}
    {s t : Step α} (hlost : ∀ {c a c'}, lost c → s c = .ok a c' → lost c')
    (h : Simulates R (fun _ => False) s t) : Follows lost R (fun _ => False) s t where
  stays := hlost
  follows {c d a c'} hcd hs := by
    have hagree := h hcd
    rw [hs] at hagree
    generalize t d = r at hagree ⊢
    cases hagree with
    | ok _ hcd' => exact .inr (.inl ⟨_, rfl, hcd'⟩)
    | excused h => exact h.elim

/-- What is done in one of two rows that are near to one another can be done in the other. -/
abbrev Nearby {α : Type} (engine : Engine) (parts : Expr → Prop) (row : Row) (x : Spot)
    (s t : Step α) : Prop :=
  Follows Context.Void (x.Neighbours engine parts row) (fun _ => False) s t

theorem neighbours_note (h : x.Neighbours engine parts row c d) :
    x.Neighbours engine parts row { c with sawPlainColumn := true }
      { d with sawPlainColumn := true } :=
  ⟨h.near.note true true, h.touched.note true, h.otherTouched.note true⟩

theorem nearby_readField (name : String) : Nearby engine parts row x (readField name x.row false)
    (readField name x.otherRow false) := by
  refine .of_simulates (fun hc hs => (readField_eq_ok hs).2 ▸ hc.note true) fun c d h => ?_
  have hcell : ∀ table, ((c.frame.view? table).map (·.value x.row name)).getD .null =
      ((d.frame.view? table).map (·.value x.otherRow name)).getD .null :=
    fun table => by rw [h.near.frame.cells]
  rw [readField_apply, readField_apply, h.near.resolve]
  cases d.resolve name with
  | error e => exact .error e
  | ok table =>
    simp only [hcell]
    exact .ok _ (neighbours_note h)

theorem nearby_readQualified (table name : String) :
    Nearby engine parts row x (readQualified table name x.row false)
      (readQualified table name x.otherRow false) := by
  refine .of_simulates (fun hc hs => (readQualified_eq_ok hs).2 ▸ hc.note true) fun c d h => ?_
  have hfields := h.near.frame.fields table
  have hcell := h.near.frame.cells table name
  rw [readQualified_apply, readQualified_apply]
  cases hv : c.frame.view? table <;> cases hw : d.frame.view? table <;>
    rw [hv, hw] at hfields hcell
  · rw [h.near.collapsed]
    exact .error _
  · cases hfields
  · cases hfields
  · rename_i v w
    have hdeclares : v.declares name = w.declares name := by
      rw [View.declares, View.declares, Option.some.inj hfields]
    have hvalue : v.value x.row name = w.value x.otherRow name := Option.some.inj hcell
    simp only [hdeclares, hvalue]
    split
    · exact .ok _ (neighbours_note h)
    · exact .error _

theorem nearby_readWindow (label : String) :
    Nearby engine parts row x (readWindow label x.row) (readWindow label x.otherRow) := by
  refine .of_simulates (fun hc hs => readWindow_eq_ok hs ▸ hc) fun c d h => ?_
  rw [readWindow_apply, readWindow_apply, h.near.sourceEmpty, h.near.frame.windows]
  split
  · exact .ok _ h
  · cases (d.frame.rows[x.otherRow]?).bind (·.windows.get? label) with
    | none => exact .error _
    | some v => exact .ok v h

/-- Rows are in the same group, or else all columns are lost. -/
theorem nearby_groupOf : Nearby engine parts row x (groupOf x.row) (groupOf x.otherRow) where
  stays hc hs := (steady_void engine).groupOf trivial x.row hc hs
  follows {c d g c'} h hs := by
    obtain ⟨-, hgroup, rfl⟩ | ⟨-, -, rfl⟩ := groupOf_eq_ok hs
    · have hgroup' : (d.frame.rows[x.otherRow]?).bind (·.group) = some g :=
        h.near.frame.group.symm.trans hgroup
      refine .inr (.inl ⟨_, groupOf_of_group hgroup', h.near.noteAggregated _ _, ?_, ?_⟩)
      · exact h.touched.noteAggregated _
      · exact h.otherTouched.noteAggregated _
    · exact .inl c.void_collapse

theorem nearby_value (hparts : Expr.Family parts)
    (hover : ∀ r, parts r → r.Over engine.functions fields)
    (hx : x.start.Shows fields row x.row ∧ x.start.Finds fields) {e : Expr} (he : e.Clear parts)
    (h : Nearby engine parts row x ((e.evaluator engine).compute x.row false)
      ((e.evaluator engine).compute x.otherRow false)) :
    Nearby engine parts row x ((e.evaluator engine).value engine x.row false)
      ((e.evaluator engine).value engine x.otherRow false) := by
  by_cases hpart : parts e
  · -- the value of a part is its amount on both sides
    refine ⟨fun hc hs => (steady_void engine).evaluate (.inl trivial) x.row false hc hs, ?_⟩
    intro c d v c' hcd hs
    have hshows := hx.1.touched hcd.touched
    have hfinds := hx.2.touched hcd.touched
    obtain ⟨hamount, hworked⟩ := Expr.Over.of_value hparts (hover e hpart) hpart hshows
      hcd.near.vouches hs
    obtain ⟨d', hd', hworked'⟩ := Expr.Over.exists_value hparts (hover e hpart) hpart
      (hcd.near.shows hshows) (hcd.near.finds hfinds) hcd.near.otherVouches hamount
    refine .inr (.inl ⟨d', hd', hcd.near.worked hworked hworked', ?_, ?_⟩)
    · exact hcd.touched.trans hworked.touched
    · exact hcd.otherTouched.trans hworked'.touched
  · have hlabel : ∀ label, (e.evaluator engine).label? = some label →
        ∀ r, parts r → r.isRemembered = true → r.label ≠ label := by
      intro label hl r hr hremembered hsame
      rw [e.label?_evaluator, Expr.rememberedLabel?] at hl
      split at hl
      · cases hl
        exact hpart (he e (.self e) ‹_› r hr hremembered hsame.symm)
      · cases hl
    refine h.value (fun label v hc => (steady_void engine).remember x.row label v hc)
      (fun hl hcd => hcd.near.others _ (hlabel _ hl)) fun v hl hcd => ?_
    exact ⟨hcd.near.remember (hlabel _ hl) v, hcd.touched.remember rfl engine _ v,
      hcd.otherTouched.remember rfl engine _ v⟩

/-- The simulation of evaluations in rows that are near to one another. -/
def nearSimulation (hparts : Expr.Family parts)
    (hover : ∀ r, parts r → r.Over engine.functions fields) (row : Row) : SelfSimulation engine where
  Index := { x : Spot // x.start.Shows fields row x.row ∧ x.start.Finds fields }
  row x := x.1.row
  otherRow x := x.1.otherRow
  inAggregate _ := false
  relation x := .follows Context.Void (x.1.Neighbours engine parts row) fun _ => False
  admits := Expr.Clear parts
  operand h hp := h.operand hp
  readField _ name := nearby_readField name
  readQualified _ table name := nearby_readQualified table name
  readWindow _ _ _ _ _ _ := nearby_readWindow _
  call _ _ _ _ _ _ _ hf := by
    refine StepRelation.call (.follows _ _ _) rfl (fun _ _ _ _ _ => trivial) (fun _ _ => hf) fun h _ => ?_
    exact StepRelation.bind _ nearby_groupOf fun group => StepRelation.lift _ fun _ _ => trivial
  value x _ he h := nearby_value hparts hover x.2 he h

/-- Expressions that have values in one of two rows that are near to one another have them in the other, as
long as the columns are there. -/
theorem near_values (hparts : Expr.Family parts) (hover : ∀ r, parts r → r.Over engine.functions fields)
    (hes : ∀ e ∈ es, e.Clear parts) (hshows : c.Shows fields row i) (hfinds : c.Finds fields)
    (hnear : c.Near engine parts row i j d) {xs : List Value}
    (h : Evaluator.values engine (Expr.evaluators engine es) i false c = .ok xs c') :
    c'.Void ∨ ∃ d', Evaluator.values engine (Expr.evaluators engine es) j false d = .ok xs d' ∧
      Spot.Neighbours engine parts row ⟨i, j, c, d⟩ c' d' := by
  have hvalues := (nearSimulation hparts hover row).values hes ⟨⟨i, j, c, d⟩, hshows, hfinds⟩
  obtain hvoid | hvalues | ⟨_, _, -, hnone⟩ := hvalues.follows ⟨hnear, .refl _ c, .refl _ d⟩ h
  · exact .inl hvoid
  · exact .inr hvalues
  · exact hnone.elim

end Step

end TableQuery
