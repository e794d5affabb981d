/-
Rows of two contexts that hold the same.

`Frame.SameRow i j f g` says that row `i` of `f` holds what row `j` of `g` does, and
`Context.SameRow i j c d` that an evaluation finds the same in these rows: the cells, the group, the
results of windows, the keys, and what is remembered.

* `Frame.SameRow.take`, `Context.SameRow.reorder` — rows that are selected hold what they held;
* `Frame.SameRow.push` — a view that is added on both sides;
* `Touched` — a context that was only looked at: values may have been remembered for some of its
  rows, and all other rows are the same as before.
-/
import Mathlib.Data.List.Basic
import TableQuery.Context.Basic

namespace TableQuery

theorem lookup_map_snd {α β : Type} (f : String → α → β) (l : List (String × α)) (key : String) :
    (l.map fun (k, a) => (k, f k a)).lookup key = (l.lookup key).map (f key) := by
  induction l with
  | nil => rfl
  | cons p l ih =>
    obtain ⟨k, a⟩ := p
    rw [List.map_cons, List.lookup_cons, List.lookup_cons]
    cases h : key == k with
    | false => exact ih
    | true => rw [show key = k by simpa using h]; rfl

namespace Frame

/-- Every view has as many rows as the frame. -/
def Aligned (f : Frame) : Prop := ∀ p ∈ f.views, p.2.size = f.size

theorem Aligned.size_view {f : Frame} (h : f.Aligned) {table : String} {v : View}
    (hv : f.view? table = some v) : v.size = f.size := by
  obtain ⟨before, after, hviews, -⟩ := List.lookup_eq_some_iff.mp hv
  exact h (table, v) (by simp [hviews])

theorem view?_take (f : Frame) (places : List Nat) (table : String) :
    (f.take places).view? table = (f.view? table).map (·.take places) :=
  lookup_map_snd (fun _ (v : View) => v.take places) f.views table

theorem view?_push (f : Frame) (table other : String) (v : View) :
    (f.push table v).view? other =
      (f.view? other).or (if other == table then some v else none) := by
  rw [view?, push, List.lookup_append, List.lookup_cons]
  cases other == table <;> rfl

theorem getElem?_rows_take (f : Frame) {places : List Nat} {k i : Nat} (hk : places[k]? = some i)
    (hi : i < f.size) : (f.take places).rows[k]? = f.rows[i]? := by
  rw [size] at hi
  simp [take, hk, hi]

/-- Row `i` of one frame holds what row `j` of the other does. -/
structure SameRow (i j : Nat) (f g : Frame) : Prop where
  fields : ∀ table, (f.view? table).map View.fields = (g.view? table).map View.fields
  cells : ∀ table name,
    (f.view? table).map (·.value i name) = (g.view? table).map (·.value j name)
  group : (f.rows[i]?).bind (·.group) = (g.rows[j]?).bind (·.group)
  windows : ∀ label,
    (f.rows[i]?).bind (·.windows.get? label) = (g.rows[j]?).bind (·.windows.get? label)
  keys : ∀ label, (f.rows[i]?).bind (·.keys.get? label) = (g.rows[j]?).bind (·.keys.get? label)

namespace SameRow

variable {i j k : Nat} {f g h : Frame}

theorem refl (i : Nat) (f : Frame) : SameRow i i f f :=
  ⟨fun _ => rfl, fun _ _ => rfl, rfl, fun _ => rfl, fun _ => rfl⟩

theorem symm (s : SameRow i j f g) : SameRow j i g f :=
  ⟨fun t => (s.fields t).symm, fun t n => (s.cells t n).symm, s.group.symm,
    fun l => (s.windows l).symm, fun l => (s.keys l).symm⟩

theorem trans (s : SameRow i j f g) (t : SameRow j k g h) : SameRow i k f h :=
  ⟨fun a => (s.fields a).trans (t.fields a), fun a n => (s.cells a n).trans (t.cells a n),
    s.group.trans t.group, fun l => (s.windows l).trans (t.windows l),
    fun l => (s.keys l).trans (t.keys l)⟩

/-- A selected row holds what it held before. -/
theorem take (hf : f.Aligned) {places : List Nat} (hp : ∀ p ∈ places, p < f.size)
    (hk : places[k]? = some i) : SameRow k i (f.take places) f := by
  have hi : i < f.size := hp i (List.mem_of_getElem? hk)
  have hrow := f.getElem?_rows_take hk hi
  refine ⟨fun table => ?_, fun table name => ?_, by rw [hrow], fun l => by rw [hrow],
    fun l => by rw [hrow]⟩
  · rw [view?_take, Option.map_map]
    rfl
  · rw [view?_take, Option.map_map]
    cases hv : f.view? table with
    | none => rfl
    | some v =>
      have hsize := hf.size_view hv
      -- no place is left out, so the rows of the view stay next to those of the frame
      have hplaces : places.filterMap (v.rows[·]?) = places.map fun p => v.rows.getD p .empty := by
        refine List.filterMap_eq_map_iff_forall_eq_some.mpr fun p hp' => ?_
        have hlt : p < v.rows.size := by
          rw [← View.size, hsize]
          exact hp p hp'
        simp [hlt]
      have hcell : (v.take places).rows[k]? = v.rows[i]? := by
        have hlt : i < v.rows.size := by rw [← View.size, hsize]; exact hi
        simp [View.take, hplaces, hk, hlt]
      show some (View.value _ _ _) = some (v.value i name)
      rw [View.value, View.value, hcell]

/-- A view is added on both sides. -/
theorem push (s : SameRow i j f g) {v w : View} (table : String) (hfields : v.fields = w.fields)
    (hcells : ∀ name, v.value i name = w.value j name) :
    SameRow i j (f.push table v) (g.push table w) := by
  refine ⟨fun other => ?_, fun other name => ?_, s.group, s.windows, s.keys⟩
  · have hs := s.fields other
    rw [view?_push, view?_push]
    cases hf : f.view? other <;> cases hg : g.view? other <;> rw [hf, hg] at hs
    · by_cases h : other = table <;> simp [h, hfields]
    · cases hs
    · cases hs
    · exact hs
  · have hs := s.cells other name
    rw [view?_push, view?_push]
    cases hf : f.view? other <;> cases hg : g.view? other <;> rw [hf, hg] at hs
    · by_cases h : other = table <;> simp [h, hcells]
    · cases hs
    · cases hs
    · exact hs

end SameRow

end Frame

namespace Context

/-- An evaluation finds the same in row `i` of one context as in row `j` of the other. -/
structure SameRow (i j : Nat) (c d : Context) : Prop where
  frame : c.frame.SameRow i j d.frame
  direct : c.direct = d.direct
  ambiguous : c.ambiguous = d.ambiguous
  collapsed : c.collapsed = d.collapsed
  sourceEmpty : c.sourceEmpty = d.sourceEmpty
  memo : c.memo[i]? = d.memo[j]?

/-- Every view has as many rows as the context, and so has what is remembered. -/
structure Aligned (c : Context) : Prop where
  frame : c.frame.Aligned
  memo : c.memo.size = c.size

namespace SameRow

variable {i j k : Nat} {b c d : Context}

theorem refl (i : Nat) (c : Context) : SameRow i i c c := ⟨.refl i c.frame, rfl, rfl, rfl, rfl, rfl⟩

theorem symm (s : SameRow i j c d) : SameRow j i d c :=
  ⟨s.frame.symm, s.direct.symm, s.ambiguous.symm, s.collapsed.symm, s.sourceEmpty.symm,
    s.memo.symm⟩

theorem trans (s : SameRow i j b c) (t : SameRow j k c d) : SameRow i k b d :=
  ⟨s.frame.trans t.frame, s.direct.trans t.direct, s.ambiguous.trans t.ambiguous,
    s.collapsed.trans t.collapsed, s.sourceEmpty.trans t.sourceEmpty, s.memo.trans t.memo⟩

theorem resolve (s : SameRow i j c d) (name : String) : c.resolve name = d.resolve name := by
  rw [Context.resolve, Context.resolve, s.direct, s.ambiguous, s.collapsed]

theorem remembered? (s : SameRow i j c d) (engine : Engine) (label : String) :
    c.remembered? engine i label = d.remembered? engine j label := by
  rw [Context.remembered?, Context.remembered?, s.memo, s.frame.keys]

theorem note (s : SameRow i j c d) (p q : Bool) :
    SameRow i j { c with sawPlainColumn := p } { d with sawPlainColumn := q } := { s with }

theorem noteAggregated (s : SameRow i j c d) (p q : Bool) :
    SameRow i j { c with aggregated := p } { d with aggregated := q } := { s with }

theorem remember (s : SameRow i j c d) (engine : Engine) (label : String) (v : Value) :
    SameRow i j (c.remember engine i label v) (d.remember engine j label v) := by
  rw [Context.remember, Context.remember]
  cases engine.remembers with
  | false => exact s
  | true =>
    refine { s with memo := ?_ }
    show (c.memo.modify i _)[i]? = (d.memo.modify j _)[j]?
    rw [Array.getElem?_modify, Array.getElem?_modify, if_pos rfl, if_pos rfl, s.memo]

/-- A selected row keeps what is remembered about it, and holds what it held. -/
theorem reorder (hc : c.Aligned) {places : List Nat} (hp : ∀ p ∈ places, p < c.size)
    (hk : places[k]? = some i) : SameRow k i (c.reorder places) c := by
  refine ⟨.take hc.frame hp hk, rfl, rfl, rfl, rfl, ?_⟩
  have hi : i < c.memo.size := hc.memo ▸ hp i (List.mem_of_getElem? hk)
  simp [Context.reorder, hk, hi]

end SameRow

/-- Context `d` is `c` after a look at some of the rows: for these values may have been remembered,
and plain columns and aggregates may have been noticed. -/
structure Touched (rows : Nat → Prop) (c d : Context) : Prop where
  frame : d.frame = c.frame
  hasSource : d.hasSource = c.hasSource
  direct : d.direct = c.direct
  ambiguous : d.ambiguous = c.ambiguous
  collapsed : d.collapsed = c.collapsed
  grouped : d.grouped = c.grouped
  sourceEmpty : d.sourceEmpty = c.sourceEmpty
  emptyGroup : d.emptyGroup = c.emptyGroup
  size_memo : d.memo.size = c.memo.size
  memo : ∀ k, ¬ rows k → d.memo[k]? = c.memo[k]?

namespace Touched

variable {rows others : Nat → Prop} {i : Nat} {b c d : Context}

theorem refl (rows : Nat → Prop) (c : Context) : Touched rows c c :=
  ⟨rfl, rfl, rfl, rfl, rfl, rfl, rfl, rfl, rfl, fun _ _ => rfl⟩

theorem trans (s : Touched rows b c) (t : Touched rows c d) : Touched rows b d :=
  ⟨t.frame.trans s.frame, t.hasSource.trans s.hasSource, t.direct.trans s.direct,
    t.ambiguous.trans s.ambiguous, t.collapsed.trans s.collapsed, t.grouped.trans s.grouped,
    t.sourceEmpty.trans s.sourceEmpty, t.emptyGroup.trans s.emptyGroup,
    t.size_memo.trans s.size_memo, fun k hk => (t.memo k hk).trans (s.memo k hk)⟩

theorem mono (s : Touched rows c d) (h : ∀ k, rows k → others k) : Touched others c d :=
  { s with memo := fun k hk => s.memo k fun hr => hk (h k hr) }

theorem size (s : Touched rows c d) : d.size = c.size := by rw [Context.size, s.frame]; rfl

theorem aligned (s : Touched rows c d) (h : c.Aligned) : d.Aligned :=
  ⟨s.frame ▸ h.frame, by rw [s.size_memo, h.memo, s.size]⟩

/-- A row that was not looked at is the same as before. -/
theorem sameRow (s : Touched rows c d) (hi : ¬ rows i) : SameRow i i c d :=
  ⟨s.frame ▸ .refl i c.frame, s.direct.symm, s.ambiguous.symm, s.collapsed.symm,
    s.sourceEmpty.symm, (s.memo i hi).symm⟩

theorem note (s : Touched rows c d) (p : Bool) : Touched rows c { d with sawPlainColumn := p } :=
  { s with }

theorem noteAggregated (s : Touched rows c d) (p : Bool) :
    Touched rows c { d with aggregated := p } := { s with }

theorem remember (s : Touched rows c d) (hi : rows i) (engine : Engine) (label : String)
    (v : Value) : Touched rows c (d.remember engine i label v) := by
  rw [Context.remember]
  cases engine.remembers with
  | false => exact s
  | true =>
    refine { s with size_memo := ?_, memo := fun k hk => ?_ }
    · show (d.memo.modify i _).size = _
      rw [Array.size_modify, s.size_memo]
    · have hne : i ≠ k := fun h => hk (h ▸ hi)
      show (d.memo.modify i _)[k]? = _
      rw [Array.getElem?_modify, if_neg hne, s.memo k hk]

end Touched

end Context

end TableQuery
