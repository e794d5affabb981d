/-
The rows that a query works on.

A frame holds views side by side and, for each row, the group and the partition it belongs to, the
results of windows, and the values of the expressions it was grouped by. `Frame.take` selects rows
of all of them at once, so that they stay next to each other.
-/
import TableQuery.Table.View

namespace TableQuery

/-- What is known about a row besides the cells of its views. -/
structure RowState (F : Type) where
  /-- The rows that were grouped into this one. -/
  group : Option F := none
  /-- The partition of windows that the row was last found in. -/
  partition : Option F := none
  /-- The results of windows under their labels. -/
  windows : Labelled Value := .empty
  /-- The values of grouping expressions other than fields under their labels. -/
  keys : Labelled Value := .empty

/-- Rows under the views of several tables. -/
structure Frame where
  /-- The views under their aliases, in the order in which they were added. -/
  views : List (String × View) := []
  rows : Array (RowState Frame) := #[]

instance : Inhabited Frame := ⟨{}⟩

namespace Frame

/-- The count of rows. -/
def size (f : Frame) : Nat := f.rows.size

/-- A frame of rows without views. -/
def ofSize (n : Nat) : Frame := { rows := .replicate n {} }

/-- The view with the given alias. -/
def view? (f : Frame) (table : String) : Option View := f.views.lookup table

/-- Adds a view behind the others. -/
def push (f : Frame) (table : String) (v : View) : Frame :=
  { f with views := f.views ++ [(table, v)] }

/-- The rows at the given places of every view and of what is known about them. -/
def take (f : Frame) (places : List Nat) : Frame where
  views := f.views.map fun (table, v) => (table, v.take places)
  rows := (places.map fun i => (f.rows[i]?).getD {}).toArray

/-- The same views without rows. -/
def empty (f : Frame) : Frame := f.take []

/-- One row that holds Null in every field of every view. -/
def nullRow (f : Frame) : Frame where
  views := f.views.map fun (table, v) => (table, ⟨v.fields, #[v.nullRow]⟩)
  rows := #[{}]

/-- Changes what is known about one row. -/
def modifyRow (f : Frame) (i : Nat) (change : RowState Frame → RowState Frame) : Frame :=
  { f with rows := f.rows.modify i change }

@[simp] theorem size_take (f : Frame) (places : List Nat) :
    (f.take places).size = places.length := by
  simp [size, take]

@[simp] theorem size_ofSize (n : Nat) : (ofSize n).size = n := by simp [size, ofSize]

@[simp] theorem size_push (f : Frame) (table : String) (v : View) :
    (f.push table v).size = f.size := rfl

@[simp] theorem size_modifyRow (f : Frame) (i : Nat) (change : RowState Frame → RowState Frame) :
    (f.modifyRow i change).size = f.size := by simp [size, modifyRow]

end Frame

end TableQuery
