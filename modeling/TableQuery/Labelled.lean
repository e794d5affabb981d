/-
Values under labels, each label at most once.

`get?` and `put` are all that the rest of the library relies on: a label that has been put holds the
last value put there, and putting one label leaves every other as it is.
-/

namespace TableQuery

/-- Values under labels. -/
structure Labelled (α : Type) where
  entries : List (String × α)
  nodup : (entries.map Prod.fst).Nodup

namespace Labelled

variable {α : Type}

/-- Nothing under any label. -/
def empty : Labelled α := ⟨[], List.nodup_nil⟩

instance : Inhabited (Labelled α) := ⟨empty⟩

/-- The value under a label. -/
def get? (m : Labelled α) (label : String) : Option α := m.entries.lookup label

/-- Some value stands under the label. -/
def has (m : Labelled α) (label : String) : Bool := (m.get? label).isSome

/-- Takes away what stands under a label. -/
def erase (m : Labelled α) (label : String) : Labelled α :=
  ⟨m.entries.filter (·.1 != label), (List.filter_sublist.map Prod.fst).nodup m.nodup⟩

theorem ne_of_mem_erase {m : Labelled α} {label : String} {e : String × α}
    (h : e ∈ (m.erase label).entries) : e.1 ≠ label := by
  have h₂ := (List.mem_filter.mp h).2
  exact fun he => by simp [he] at h₂

theorem nodup_erase_append (m : Labelled α) (label : String) (a : α) :
    (((m.erase label).entries ++ [(label, a)]).map Prod.fst).Nodup := by
  rw [List.map_append, List.nodup_append]
  refine ⟨(m.erase label).nodup, by simp, fun x hx y hy => ?_⟩
  obtain ⟨e, he, rfl⟩ := List.mem_map.mp hx
  rw [List.mem_singleton.mp hy]
  exact ne_of_mem_erase he

/-- Puts a value under a label in place of what stood there. -/
def put (m : Labelled α) (label : String) (a : α) : Labelled α :=
  ⟨(m.erase label).entries ++ [(label, a)], m.nodup_erase_append label a⟩

/-- The labels in the order in which they were last put. -/
def labels (m : Labelled α) : List String := m.entries.map Prod.fst

/-- Puts values one after the other, so that the last of equal labels wins. -/
def ofList (entries : List (String × α)) : Labelled α :=
  entries.foldl (fun m e => m.put e.1 e.2) empty

theorem ofList_concat (entries : List (String × α)) (e : String × α) :
    ofList (entries ++ [e]) = (ofList entries).put e.1 e.2 := by
  rw [ofList, List.foldl_append, ← ofList]
  rfl

theorem lookup_filter_ne (xs : List (String × α)) {label other : String} (h : other ≠ label) :
    (xs.filter (·.1 != label)).lookup other = xs.lookup other := by
  induction xs with
  | nil => rfl
  | cons x xs ih =>
    obtain ⟨l, a⟩ := x
    by_cases hl : l = label
    · have hne : (other == l) = false := by simpa [hl] using h
      simp [List.lookup_cons, hl, ih, hl ▸ hne]
    · simp [List.lookup_cons, hl, ih]

theorem lookup_filter_self (xs : List (String × α)) (label : String) :
    (xs.filter (·.1 != label)).lookup label = none := by
  induction xs with
  | nil => rfl
  | cons x xs ih =>
    obtain ⟨l, a⟩ := x
    by_cases hl : l = label
    · simp [hl, ih]
    · have hne : (label == l) = false := by simpa using fun h => hl h.symm
      simp [List.lookup_cons, hl, hne, ih]

@[simp] theorem get?_empty (label : String) : (empty : Labelled α).get? label = none := rfl

/-- A label that has been put holds the value put there. -/
@[simp] theorem get?_put_self (m : Labelled α) (label : String) (a : α) :
    (m.put label a).get? label = some a := by
  simp [get?, put, erase, List.lookup_append, lookup_filter_self]

/-- Putting one label leaves every other as it is. -/
theorem get?_put_ne (m : Labelled α) {label other : String} (a : α) (h : other ≠ label) :
    (m.put label a).get? other = m.get? other := by
  have hne : (other == label) = false := by simpa using h
  simp [get?, put, erase, List.lookup_append, List.lookup_cons, lookup_filter_ne _ h, hne]

/-- A label that is put goes behind all others. -/
theorem labels_put (m : Labelled α) (label : String) (a : α) :
    (m.put label a).labels = m.labels.filter (· != label) ++ [label] := by
  rw [labels, put, List.map_append, labels, List.filter_map]
  rfl

end Labelled

end TableQuery
