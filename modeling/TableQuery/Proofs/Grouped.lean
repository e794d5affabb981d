/-
Contexts of groups.

Grouping leaves a row for each group, and from then on no aggregate takes rows away: every operation
on rows keeps this (`Step.lasting_grouped`), and looks at each row alone.
-/
import TableQuery.Proofs.Sources

namespace TableQuery

/-- Every row is a group. Grouping no rows has left no group but the empty one. -/
structure Context.Grouped (c : Context) : Prop where
  aligned : c.Aligned
  inGroup : ∀ i < c.size, c.InGroup i
  grouped : c.grouped = true
  sourceEmpty : c.sourceEmpty = false
  emptyGroup : c.emptyGroup = none ∨ c.size = 0

namespace Context.Grouped

variable {c d : Context} (h : c.Grouped)
include h

theorem touched {rows : Nat → Prop} (t : c.Touched rows d) : d.Grouped where
  aligned := t.aligned h.aligned
  inGroup i hi := by
    rw [InGroup, t.frame]
    exact h.inGroup i (t.size ▸ hi)
  grouped := t.grouped.trans h.grouped
  sourceEmpty := t.sourceEmpty.trans h.sourceEmpty
  emptyGroup := by
    rw [t.emptyGroup, t.size]
    exact h.emptyGroup

theorem unseen : Grouped { c with sawPlainColumn := false } :=
  ⟨⟨h.aligned.frame, h.aligned.memo⟩, h.inGroup, h.grouped, h.sourceEmpty, h.emptyGroup⟩

/-- Rows that are selected are still groups. -/
theorem reorder {places : List Nat} (hp : ∀ p ∈ places, p < c.size) :
    (c.reorder places).Grouped where
  aligned := h.aligned.reorder (.inl hp)
  inGroup i hi := by
    rw [size_reorder] at hi
    have hlt := hp places[i] (List.getElem_mem hi)
    have hsame := SameRow.reorder h.aligned hp (List.getElem?_eq_getElem hi)
    exact hsame.symm.inGroup (h.inGroup _ hlt)
  grouped := h.grouped
  sourceEmpty := h.sourceEmpty
  emptyGroup := by
    refine h.emptyGroup.imp_right fun hsize => ?_
    rw [size_reorder]
    refine List.length_eq_zero_iff.mpr (List.eq_nil_iff_forall_not_mem.mpr fun p hmem => ?_)
    have hlt := hp p hmem
    omega

/-- What is remembered does not matter to groups. -/
theorem replaceFrame {f : Frame} (hc : (c.frame = f)) : (c.replaceFrame f).Grouped where
  aligned := c.aligned_replaceFrame (hc ▸ h.aligned.frame)
  inGroup := hc ▸ h.inGroup
  grouped := h.grouped
  sourceEmpty := h.sourceEmpty
  emptyGroup := hc ▸ h.emptyGroup

theorem noted {new : Frame → Prop} {f : Frame} (hf : c.frame.Noted new f) : Grouped { c with frame := f } where
  aligned := h.aligned.noted hf
  inGroup i hi := by
    have hgroup := congrArg (Option.bind · id) (hf.group i)
    simp only [Option.bind_map, Function.id_comp] at hgroup
    have hin := h.inGroup i (Nat.lt_of_lt_of_eq hi hf.size)
    rw [InGroup] at hin ⊢
    exact hgroup ▸ hin
  grouped := h.grouped
  sourceEmpty := h.sourceEmpty
  emptyGroup := h.emptyGroup.imp_right hf.size.trans

end Context.Grouped

namespace Step

variable {engine : Engine}

/-- A look at every group leaves the groups. -/
theorem grouped_rows {α : Type} [Inhabited α] {free : Prop} {action : Nat → Step α}
    (h : Local free action) : Ensures Context.Grouped (rows action)
      fun as d => d.Grouped ∧ as.size = d.size := by
  intro c as d hc he
  obtain ⟨htouched, -, g, -, rfl⟩ := h.rows_of_ok (fun i hi => .inl (hc.inGroup i hi)) he
  exact ⟨hc.touched htouched, by simp [htouched.size]⟩

/-- Every operation on rows leaves groups. -/
theorem lasting_grouped (engine : Engine) :
    Lasting engine (fun _ => True) Context.Grouped fun n c => c.Grouped ∧ n = c.size where
  operand _ _ := trivial
  values _ := grouped_rows (local_values engine _ false)
  holds _ := grouped_rows (local_holds engine _)
  filtered {c n places} h hp := by
    obtain ⟨hc, rfl⟩ := h
    exact ((hc.reorder hp).replaceFrame rfl).unseen
  sorted h hp := by
    obtain ⟨hc, rfl⟩ := h
    exact (hc.reorder hp).unseen
  partitioned h hf := (h.1.noted hf).unseen
  noted h hf := h.noted hf
  limited h hp := h.reorder hp

theorem marks_collapseTo (c : Context) (columns : List KeyColumn) (buckets : List Bucket)
    (groups : List Group) : (c.collapseTo columns buckets groups).marks =
      (true, c.sourceEmpty, if buckets.isEmpty then some c.frame.empty else c.emptyGroup) :=
  Context.marks_rebuildFields _

theorem rows_collapseTo (c : Context) (columns : List KeyColumn) (buckets : List Bucket)
    (groups : List Group) : (c.collapseTo columns buckets groups).frame.rows =
      ((buckets.zip groups).map fun (b, g) =>
        { group := some g.frame, keys := Context.labelledKeys columns b.key }).toArray := by
  rw [Context.collapseTo, Context.frame_rebuildFields]
  rfl

/-- Nothing is remembered about groups when they are new. -/
theorem forgotten_collapseTo (c : Context) (columns : List KeyColumn) (buckets : List Bucket)
    (groups : List Group) : (c.collapseTo columns buckets groups).Forgotten := by
  rw [Context.collapseTo]
  obtain ⟨direct, ambiguous, h⟩ := Context.rebuildFields_eq _
  rw [h]
  rfl

/-- Grouping leaves groups. -/
theorem grouped_groupBy (keys : List Expr) :
    Ensures Context.Loaded (groupBy engine keys)
      fun _ c => c.Grouped ∧ c.sawPlainColumn = false ∧ c.Forgotten := by
  rw [groupBy]
  have hbuckets : Ensures Context.Loaded (buckets engine keys)
      fun _ c => c.marks = (false, false, none) :=
    ((lasting_marks engine _).buckets fun _ _ => .inl trivial).mono (fun _ hc => hc.marks)
      fun _ _ h => h.elim fun _ hc => hc.1
  refine hbuckets.bind fun buckets => ?_
  refine Ensures.bind (Q := fun groups c => c.marks = (false, false, none) ∧
    groups.length = buckets.length) (.get_bind fun c hc => ?_) fun groups => .get_bind fun c hc => ?_
  · exact .pure _ fun d (hd : d = c) => ⟨hd ▸ hc, List.length_map _⟩
  obtain ⟨hmarks, hlength⟩ := hc
  refine (Ensures.lift (Q := fun _ d => d = c) _ fun d _ hd _ => hd).bind fun columns => ?_
  have hforgotten := forgotten_collapseTo c columns buckets groups
  refine Ensures.bind (Q := fun _ c => c.Grouped ∧ c.sawPlainColumn = false ∧ c.Forgotten)
    (.set _ ⟨?_, rfl, hforgotten⟩) fun _ => .pure _ fun _ h => h
  have hcollapse := marks_collapseTo c columns buckets groups
  have hrows := rows_collapseTo c columns buckets groups
  refine Context.Grouped.unseen ⟨aligned_collapseTo c columns hlength, fun i hi => ?_, ?_, ?_, ?_⟩
  · rw [Context.size, Frame.size] at hi
    rw [Context.InGroup, Array.getElem?_eq_getElem hi]
    simp [hrows]
  · exact congrArg Prod.fst hcollapse
  · exact (congrArg (·.2.1) hcollapse).trans (congrArg (·.2.1) hmarks)
  · -- a group without rows is kept only where there are no buckets, and then there are no rows
    cases buckets with
    | nil =>
      right
      rw [Context.size, Frame.size, hrows]
      rfl
    | cons b buckets =>
      left
      exact (congrArg (·.2.2) hcollapse).trans (congrArg (·.2.2) hmarks)

/-- Grouping by what calls no aggregate function leaves none noticed. -/
theorem unaggregated_groupBy {keys : List Expr}
    (hkeys : ∀ e ∈ keys, e.AggregateFree engine.functions) :
    Ensures (·.aggregated = false) (groupBy engine keys) fun _ c => c.aggregated = false := by
  have L := (steady_unaggregated engine).lasting (fun _ h => h) (fun _ h => h) (fun _ h => h)
    fun h _ => h
  rw [groupBy]
  have hbuckets : Ensures (·.aggregated = false) (buckets engine keys) fun _ c =>
      c.aggregated = false :=
    (L.buckets fun e he => .inr (hkeys e he)).mono (fun _ h => h) fun _ _ h => h.elim fun _ hc => hc.1
  refine hbuckets.bind fun buckets => ?_
  refine Ensures.bind (Q := fun _ c => c.aggregated = false) (.get_bind fun c hc => ?_)
    fun groups => .get_bind fun c hc => ?_
  · exact .pure _ fun d (hd : d = c) => hd ▸ hc
  refine (Ensures.lift (Q := fun _ d => d = c) _ fun d _ hd _ => hd).bind fun columns => ?_
  refine (Ensures.set (Q := fun _ c => c.aggregated = false) _ ?_).bind fun _ => .pure _ fun _ h => h
  have hcollapse : ∀ d : Context, d.rebuildFields.aggregated = d.aggregated := by
    intro d
    obtain ⟨direct, ambiguous, hd⟩ := d.rebuildFields_eq
    rw [hd]
  exact (hcollapse _).trans hc

end Step

end TableQuery
