/-
A frame with a view joined to it.

`Context.joined` is the context in which a join tries its condition on pairs of rows.

* `Context.SameRow.joined` — the row of a pair holds the same whatever the other pairs are;
* `Context.get?_registerFields_of_direct`, `Context.get?_registerFields_of_new` — to which side a
  field belongs.
-/
import TableQuery.Context.Join
import TableQuery.Proofs.SameRow

namespace TableQuery

theorem Labelled.get?_erase_ne {α : Type} (m : Labelled α) {label other : String}
    (h : other ≠ label) : (m.erase label).get? other = m.get? other :=
  lookup_filter_ne m.entries h

namespace Context

/-! ### Fields of a new view -/

variable {c d : Context} {table : String}

/-- Registering fields changes nothing but the tables by which fields are resolved. -/
theorem registerFields_eq (c : Context) (table : String) (fields : List String) :
    ∃ direct ambiguous, c.registerFields table fields =
      { c with direct := direct, ambiguous := ambiguous } := by
  induction fields generalizing c with
  | nil => exact ⟨c.direct, c.ambiguous, rfl⟩
  | cons field fields ih =>
    have hfield : ∃ direct ambiguous, registerField table c field =
        { c with direct := direct, ambiguous := ambiguous } := by
      rw [registerField]
      split
      · exact ⟨_, _, rfl⟩
      · split
        · split <;> exact ⟨_, _, rfl⟩
        · exact ⟨_, _, rfl⟩
    obtain ⟨direct, ambiguous, hfield⟩ := hfield
    obtain ⟨direct', ambiguous', ih⟩ := ih (registerField table c field)
    refine ⟨direct', ambiguous', ?_⟩
    show (registerField table c field).registerFields table fields = _
    rw [ih, hfield]

@[simp] theorem frame_registerFields (c : Context) (table : String) (fields : List String) :
    (c.registerFields table fields).frame = c.frame := by
  obtain ⟨direct, ambiguous, h⟩ := c.registerFields_eq table fields
  rw [h]

@[simp] theorem collapsed_registerFields (c : Context) (table : String) (fields : List String) :
    (c.registerFields table fields).collapsed = c.collapsed := by
  obtain ⟨direct, ambiguous, h⟩ := c.registerFields_eq table fields
  rw [h]

@[simp] theorem sourceEmpty_registerFields (c : Context) (table : String) (fields : List String) :
    (c.registerFields table fields).sourceEmpty = c.sourceEmpty := by
  obtain ⟨direct, ambiguous, h⟩ := c.registerFields_eq table fields
  rw [h]

theorem registerFields_congr (hdirect : c.direct = d.direct) (hambiguous : c.ambiguous = d.ambiguous)
    (table : String) (fields : List String) :
    (c.registerFields table fields).direct = (d.registerFields table fields).direct ∧
      (c.registerFields table fields).ambiguous = (d.registerFields table fields).ambiguous := by
  induction fields generalizing c d with
  | nil => exact ⟨hdirect, hambiguous⟩
  | cons field fields ih =>
    have hfield : (registerField table c field).direct = (registerField table d field).direct ∧
        (registerField table c field).ambiguous = (registerField table d field).ambiguous := by
      rw [registerField, registerField, hdirect, hambiguous]
      split
      · exact ⟨rfl, rfl⟩
      · split
        · split
          · exact ⟨hdirect, hambiguous⟩
          · exact ⟨rfl, rfl⟩
        · exact ⟨rfl, rfl⟩
    exact ih hfield.1 hfield.2

/-- Registering a field leaves all others as they are. -/
theorem get?_registerField_of_ne (c : Context) (table : String) {name field : String}
    (hne : name ≠ field) :
    (registerField table c field).direct.get? name = c.direct.get? name ∧
      (registerField table c field).ambiguous.get? name = c.ambiguous.get? name := by
  rw [registerField]
  split
  · exact ⟨rfl, Labelled.get?_put_ne _ _ hne⟩
  · split
    · split
      · exact ⟨rfl, rfl⟩
      · exact ⟨Labelled.get?_erase_ne _ hne, Labelled.get?_put_ne _ _ hne⟩
    · exact ⟨Labelled.get?_put_ne _ _ hne, rfl⟩

/-- Other fields are resolved as before. -/
theorem get?_registerFields_of_notMem {name : String} {fields : List String} (h : name ∉ fields) :
    (c.registerFields table fields).direct.get? name = c.direct.get? name ∧
      (c.registerFields table fields).ambiguous.get? name = c.ambiguous.get? name := by
  induction fields generalizing c with
  | nil => exact ⟨rfl, rfl⟩
  | cons field fields ih =>
    have hne : name ≠ field := fun he => h (he ▸ List.mem_cons_self)
    have hfield := c.get?_registerField_of_ne table hne
    have hrest := ih (c := registerField table c field) fun hm => h (List.mem_cons_of_mem _ hm)
    exact ⟨hrest.1.trans hfield.1, hrest.2.trans hfield.2⟩

theorem get?_registerFields_of_direct {name : String} (h : c.direct.get? name = some table)
    (fields : List String) :
    (c.registerFields table fields).direct.get? name = some table := by
  induction fields generalizing c with
  | nil => exact h
  | cons field fields ih =>
    refine ih (c := registerField table c field) ?_
    by_cases hne : name = field
    · subst hne
      rw [registerField]
      split
      · exact h
      · simp only [h, if_true]
    · exact (c.get?_registerField_of_ne table hne).1.trans h

/-- A field that no view has declared belongs to the new one. -/
theorem get?_registerFields_of_new {name : String} {fields : List String} (h : name ∈ fields)
    (hc : c.knows name = false) :
    (c.registerFields table fields).direct.get? name = some table := by
  induction fields generalizing c with
  | nil => cases h
  | cons field fields ih =>
    by_cases hne : name = field
    · subst hne
      have hnone : c.direct.get? name = none ∧ c.ambiguous.get? name = none := by
        simpa [knows, Labelled.has] using hc
      refine get?_registerFields_of_direct (c := registerField table c name) ?_ fields
      rw [registerField, hnone.1, hnone.2]
      exact Labelled.get?_put_self _ _ _
    · have hother := c.get?_registerField_of_ne table hne
      refine ih (c := registerField table c field) ((List.mem_cons.mp h).resolve_left hne) ?_
      rw [knows, Labelled.has, Labelled.has, hother.1, hother.2]
      exact hc

/-! ### Pairs of rows -/

/-- The pairs as rows, in a context in which nothing is remembered about them. -/
def joined (c : Context) (table : String) (right : View) (pairs : List RowPair) : Context :=
  (c.registerFields table right.fields).replaceFrame
    ((c.frame.take (pairs.map Prod.fst)).push table (right.paired pairs))

end Context

theorem View.value_paired {right : View} {pairs : List RowPair} {k i j : Nat}
    (hk : pairs[k]? = some (i, some j)) (hj : j < right.size) (name : String) :
    (right.paired pairs).value k name = right.value j name := by
  have hrow : (right.paired pairs).rows[k]? = right.rows[j]? := by
    rw [size] at hj
    simp [paired, hk, hj]
  rw [value, value, hrow]

theorem View.value_paired_congr (right : View) {pairs others : List RowPair} {k l : Nat}
    (h : pairs[k]? = others[l]?) (name : String) :
    (right.paired pairs).value k name = (right.paired others).value l name := by
  have hrow : (right.paired pairs).rows[k]? = (right.paired others).rows[l]? := by
    simp [paired, h]
  rw [value, value, hrow]

namespace Context

variable {c d : Context} {table : String} {right : View}

/-- The row of a pair holds the same whatever the other pairs are. -/
theorem SameRow.joined (hc : c.Aligned) {rows : Nat → Prop} (ht : c.Touched rows d)
    {pairs others : List RowPair} {k l : Nat} {p : RowPair} (hpairs : ∀ q ∈ pairs, q.1 < c.size)
    (hothers : ∀ q ∈ others, q.1 < c.size) (hk : pairs[k]? = some p) (hl : others[l]? = some p) :
    SameRow k l (d.joined table right pairs) (c.joined table right others) := by
  have hfirst : ∀ {pairs : List RowPair}, (∀ q ∈ pairs, q.1 < c.size) →
      ∀ i ∈ pairs.map Prod.fst, i < c.frame.size := by
    intro pairs h i hi
    obtain ⟨q, hq, rfl⟩ := List.mem_map.mp hi
    exact h q hq
  have hleft : Frame.SameRow k l (c.frame.take (pairs.map Prod.fst))
      (c.frame.take (others.map Prod.fst)) :=
    (Frame.SameRow.take hc.frame (hfirst hpairs) (i := p.1) (by simp [hk])).trans
      (Frame.SameRow.take hc.frame (hfirst hothers) (i := p.1) (by simp [hl])).symm
  have htables := registerFields_congr ht.direct ht.ambiguous table right.fields
  refine ⟨?_, htables.1, htables.2, ?_, ?_, ?_⟩
  · show Frame.SameRow k l ((d.frame.take _).push table _) _
    rw [ht.frame]
    exact hleft.push table rfl (View.value_paired_congr right (hk.trans hl.symm))
  · show (d.registerFields table right.fields).collapsed = _
    rw [collapsed_registerFields, ht.collapsed]
    exact (collapsed_registerFields c table right.fields).symm
  · show (d.registerFields table right.fields).sourceEmpty = _
    rw [sourceEmpty_registerFields, ht.sourceEmpty]
    exact (sourceEmpty_registerFields c table right.fields).symm
  · have hklt : k < pairs.length := (List.getElem?_eq_some_iff.mp hk).1
    have hllt : l < others.length := (List.getElem?_eq_some_iff.mp hl).1
    simp [Context.joined, replaceFrame, hklt, hllt]

end Context

end TableQuery
