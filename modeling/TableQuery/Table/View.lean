/-
Tables of rows with declared fields.

A view is an array of rows together with the names of its columns. A row may lack a cell that is
declared, which then reads as Null (`View.value`); a view is valid when no row has a cell that is
not declared (`View.undeclared?`).
-/
import TableQuery.Labelled
import TableQuery.Value.Text

namespace TableQuery

/-- A row holds values under the names of fields. -/
abbrev Row := Labelled Value

/-- Rows with declared fields. -/
structure View where
  fields : List String
  rows : Array Row
  deriving Inhabited

/-- Why rows are no valid view. -/
inductive TableError where
  /-- The text is no JSON array of objects. -/
  | notAnArrayOfObjects
  /-- A row has a cell that is not declared. -/
  | undeclaredField (row : Nat) (field : String)
  deriving Repr, DecidableEq

/-- The wording of a fault of a table. -/
def TableError.message : TableError → String
  | notAnArrayOfObjects => "Expected a JSON array of objects"
  | undeclaredField row field => s!"Row {row} has undeclared field '{field}'"

namespace View

/-- A view of given rows; without declared fields it takes the sorted fields of its first row. -/
def ofRows (rows : List Row) (fields : Option (List String)) : View :=
  let found := match rows with
    | [] => []
    | row :: _ => row.labels.mergeSort (fun a b => a ≤ b)
  ⟨fields.getD found, rows.toArray⟩

/-- A view without rows. -/
def empty (fields : List String) : View := ⟨fields, #[]⟩

/-- The count of rows. -/
def size (v : View) : Nat := v.rows.size

/-- The field is declared. -/
def declares (v : View) (field : String) : Bool := v.fields.contains field

/-- The value of a field in a row; it is Null where the cell or the whole row is missing. -/
def value (v : View) (row : Nat) (field : String) : Value :=
  ((v.rows[row]?).bind (·.get? field)).getD .null

/-- The values of a field in all rows. -/
def column (v : View) (field : String) : List Value :=
  v.rows.toList.map fun row => (row.get? field).getD .null

/-- The rows at the given places, in that order; places outside the view are left out. -/
def take (v : View) (places : List Nat) : View :=
  ⟨v.fields, (places.filterMap (v.rows[·]?)).toArray⟩

/-- Taking places of the view keeps them all. -/
theorem size_take (v : View) {places : List Nat} (h : ∀ i ∈ places, i < v.size) :
    (v.take places).size = places.length := by
  induction places with
  | nil => rfl
  | cons i places ih =>
    have hi : v.rows[i]? = some (v.rows.getD i .empty) := by
      have hlt := h i List.mem_cons_self
      rw [size] at hlt
      simp [hlt]
    have hs := ih fun j hj => h j (List.mem_cons_of_mem i hj)
    rw [size, take, List.size_toArray] at hs ⊢
    rw [List.filterMap_cons_some hi, List.length_cons, List.length_cons, hs]

/-- The row that holds Null in every declared field. -/
def nullRow (v : View) : Row := .ofList (v.fields.map fun f => (f, .null))

/-- The first cell that is not declared. -/
def undeclared? (v : View) : Option TableError :=
  v.rows.toList.zipIdx.findSome? fun (row, i) =>
    (row.labels.find? fun f => !v.declares f).map (.undeclaredField i)

/-- Only declared fields have cells. -/
def isValid (v : View) : Bool := v.undeclared?.isNone

end View

end TableQuery
