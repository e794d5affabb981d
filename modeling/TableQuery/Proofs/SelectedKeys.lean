/-
Keys that are selected.

The rows of a result may be sorted by expressions that are selected, and that are computed from columns that
are selected. Such a key is known from a row of the result alone: it is computed from its cells, and one of
them holds it. So rows of the result that are the same have keys that are level.

* `SelectedOrder` — a result that is sorted by such keys;
* `Step.shows_of_values`, `Step.amount_of_values` — the row of a result has the cells from which its keys are
  computed, and the keys;
* `View.Keyed` — a view of which every row has its key, and rows that are the same have level keys
  (`Step.keyed_of_values`).
-/
import TableQuery.Proofs.RowsAlone
import TableQuery.Proofs.StableSorting

namespace TableQuery

namespace Expr

/-- The expression is evaluated for one of the keys. -/
def KeyPart (order : List OrderItem) (r : Expr) : Prop := ∃ item ∈ order, r.Within item.expr

theorem Over.within {r : Registry} {fields : List String} {e p : Expr} (h : e.Over r fields)
    (hp : p.Within e) : p.Over r fields := by
  induction hp with
  | self => exact h
  | operand hp _ ih => exact ih (h.operand hp)

end Expr

/-- Rows are sorted by selected expressions that are computed from columns, and these are selected under their
own names. Labels tell what is computed for keys apart from whatever else is selected. -/
structure SelectedOrder (engine : Engine) (fields : List String) (exprs : List Expr)
    (order : List OrderItem) : Prop where
  columns : ∀ name ∈ fields, .field name ∈ exprs ∨ .aliased (.field name) name ∈ exprs
  computed : ∀ item ∈ order, item.expr.Over engine.functions fields
  selected : ∀ item ∈ order, item.expr.SelectedIn exprs
  family : Expr.Family (Expr.KeyPart order)
  clear : ∀ e ∈ exprs, e.Clear (Expr.KeyPart order)

namespace SelectedOrder

variable {engine : Engine} {fields : List String} {exprs : List Expr} {order : List OrderItem}
  (h : SelectedOrder engine fields exprs order)
include h

theorem column {name : String} (hname : name ∈ fields) : (Expr.field name).SelectedIn exprs :=
  (h.columns name hname).imp_right fun h => ⟨name, h⟩

theorem over_part : ∀ r, Expr.KeyPart order r → r.Over engine.functions fields := by
  rintro r ⟨item, hitem, hr⟩
  exact (h.computed item hitem).within hr

theorem keys : ∀ e ∈ order.map OrderItem.expr, e.Over engine.functions fields ∧ Expr.KeyPart order e := by
  intro e he
  obtain ⟨item, hitem, rfl⟩ := List.mem_map.mp he
  exact ⟨h.computed item hitem, item, hitem, .self _⟩

end SelectedOrder

/-! ### Rows of a result -/

/-- A row that is put together from names and values has each value under its name. -/
theorem Labelled.get?_zip {α : Type} {names : List String} {xs : List α} (h : names.Nodup) {k : Nat}
    {name : String} {x : α} (hname : names[k]? = some name) (hx : xs[k]? = some x) :
    (ofList (names.zip xs)).get? name = some x := by
  have hk : (names.zip xs)[k]? = some (name, x) := List.getElem?_zip_eq_some.mpr ⟨hname, hx⟩
  refine get?_ofList_eq_some (List.mem_of_getElem? hk) fun e he hsame => ?_
  obtain ⟨l, hl⟩ := List.mem_iff_getElem?.mp he
  obtain ⟨hl, hy⟩ := List.getElem?_zip_eq_some.mp hl
  -- names differ, so the name stands at one position only
  rw [hsame] at hl
  have hlk : l = k := (List.getElem?_inj (List.getElem?_eq_some_iff.mp hl).1 h).mp (hl.trans hname.symm)
  subst hlk
  exact Option.some.inj (hy.symm.trans hx)

/-- The cells of a row that is put together from names and values are the values. -/
theorem View.cells_of_zip {v : View} {xs : List Value} (h : v.fields.Nodup)
    (hlength : xs.length = v.fields.length) {i : Nat}
    (hrow : v.rows[i]? = some (.ofList (v.fields.zip xs))) : v.cells i = xs := by
  refine List.ext_getElem (by simp [cells, hlength]) fun k hk hk' => ?_
  have hname : v.fields[k]? = some v.fields[k] := List.getElem?_eq_getElem (hlength ▸ hk')
  have hget := Labelled.get?_zip h hname (List.getElem?_eq_getElem hk')
  simp [cells, value, hrow, hget]

theorem getElem?_columnNames {exprs : List Expr} {names : List String} (h : columnNames exprs = .ok names)
    {k : Nat} {e : Expr} (hk : exprs[k]? = some e) : names[k]? = some (e.columnName exprs) := by
  rw [columnNames] at h
  split at h
  · cases h
  · cases h
    rw [List.getElem?_map, hk]
    rfl

/-- A column that is selected under its own name has its values and its name in the result. -/
theorem exists_of_column (engine : Engine) {exprs : List Expr} {names : List String} {name : String}
    (hnames : columnNames exprs = .ok names)
    (h : .field name ∈ exprs ∨ .aliased (.field name) name ∈ exprs) :
    ∃ (k : Nat) (e : Expr), exprs[k]? = some e ∧ names[k]? = some name ∧
      (e.evaluator engine).value engine = ((Expr.field name).evaluator engine).value engine := by
  rcases h with h | h <;> obtain ⟨k, hk⟩ := List.mem_iff_getElem?.mp h <;>
    have hcolumn := (getElem?_columnNames hnames hk).trans (congrArg some (ite_self _))
  · exact ⟨k, _, hk, hcolumn, rfl⟩
  · exact ⟨k, _, hk, hcolumn, Expr.value_aliased engine _ name⟩

namespace Step

open Context

variable {engine : Engine} {fields : List String} {exprs : List Expr} {names : List String}
  {order : List OrderItem} {c d : Context} {i : Nat} {xs : List Value}

/-- A selected column has the value of its cell. -/
theorem shows_of_values (ho : SelectedOrder engine fields exprs order) (hnames : columnNames exprs = .ok names)
    (h : Evaluator.values engine (Expr.evaluators engine exprs) i false c = .ok xs d) (hvoid : ¬d.Void) :
    c.Shows fields (.ofList (names.zip xs)) i ∧ c.Finds fields := by
  refine ⟨fun name hname => ?_, fun name hname => direct_of_values (ho.column hname) h⟩
  obtain ⟨k, e, hk, hcolumn, he⟩ := exists_of_column engine hnames (ho.columns name hname)
  obtain ⟨x, c', c'', hx, t, hvalue⟩ := exists_touched_of_values h hvoid hk
  refine ⟨x, Labelled.get?_zip (of_columnNames hnames).1 hcolumn hx, fun table htable => ?_⟩
  have hresolve : c'.resolve name = .ok table := by rw [Context.resolve, t.direct, htable]
  rw [he, Expr.evaluator] at hvalue
  change readField name i false c' = _ at hvalue
  rw [readField_apply, hresolve, t.frame] at hvalue
  cases hvalue
  rfl

/-- The amount of a key that is selected is in the column of the key. -/
theorem amount_of_values (ho : SelectedOrder engine fields exprs order) {row : Row}
    (hshows : c.Shows fields row i) (hvouches : c.Vouches engine (Expr.KeyPart order) row i)
    (h : Evaluator.values engine (Expr.evaluators engine exprs) i false c = .ok xs d) (hvoid : ¬d.Void)
    {item : OrderItem} (hitem : item ∈ order) {k : Nat} {e : Expr} (hk : exprs[k]? = some e)
    (he : e = item.expr ∨ ∃ name, e = .aliased item.expr name) :
    ∃ x, xs[k]? = some x ∧ item.expr.amount engine row = .ok x := by
  obtain ⟨x, c', c'', hx, t, hvouches', hvalue⟩ := exists_of_values ho.family ho.over_part ho.clear hshows
    hvouches h hvoid hk
  have hkey : (item.expr.evaluator engine).value engine i false c' = .ok x c'' := by
    rcases he with rfl | ⟨name, rfl⟩
    · exact hvalue
    · rw [Expr.evaluator] at hvalue
      exact hvalue
  exact ⟨x, hx, (Expr.Over.of_value ho.family (ho.computed item hitem) ⟨item, hitem, .self _⟩
    (hshows.touched t) hvouches' hkey).1⟩

end Step

/-! ### Keys of a view -/

namespace View

/-- The key of a row, as it is computed from the cells. -/
def key (engine : Engine) (order : List OrderItem) (v : View) (i : Nat) : List Value :=
  order.map fun item => (item.expr.amount engine ((v.rows[i]?).getD .empty)).toOption.getD .null

/-- What the rows are sorted by is computed from their cells, and is in one of the columns. -/
def Keyed (engine : Engine) (order : List OrderItem) (v : View) : Prop :=
  ∀ item ∈ order, ∃ k : Nat, ∀ i row, v.rows[i]? = some row →
    ∃ x, (v.cells i)[k]? = some x ∧ item.expr.amount engine row = .ok x

variable {engine : Engine} {order : List OrderItem} {v : View}

theorem length_key (engine : Engine) (order : List OrderItem) (v : View) (i : Nat) :
    (v.key engine order i).length = (order.map OrderItem.direction).length := by
  simp [key]

theorem Keyed.amounts (h : v.Keyed engine order) {i : Nat} {row : Row} (hrow : v.rows[i]? = some row) :
    (order.map OrderItem.expr).mapM (Expr.amount engine row) = .ok (v.key engine order i) := by
  have hkey : v.key engine order i = (order.map OrderItem.expr).map fun e =>
      (e.amount engine row).toOption.getD .null := by
    rw [key, hrow, List.map_map]
    rfl
  rw [hkey]
  refine Step.mapM_eq_ok fun e he => ?_
  obtain ⟨item, hitem, rfl⟩ := List.mem_map.mp he
  obtain ⟨k, hk⟩ := h item hitem
  obtain ⟨x, -, hx⟩ := hk i row hrow
  rw [hx]
  rfl

/-- Rows that are the same have level keys. -/
theorem Keyed.level (h : v.Keyed engine order) {i j : Nat} (hi : i < v.size) (hj : j < v.size)
    (hsame : List.Forall₂ Value.Same (v.cells i) (v.cells j)) :
    compareKeys (order.map OrderItem.direction) (v.key engine order i) (v.key engine order j) = .eq := by
  have hrow : ∀ {k}, k < v.size → v.rows[k]? = some ((v.rows[k]?).getD .empty) := fun {k} hk => by
    have hk : k < v.rows.size := hk
    simp [hk]
  refine compareKeys_of_same (List.forall₂_map_left_iff.mpr (List.forall₂_map_right_iff.mpr
    (List.forall₂_same.mpr fun item hitem => ?_))) _
  obtain ⟨k, hk⟩ := h item hitem
  obtain ⟨x, hx, hamount⟩ := hk i _ (hrow hi)
  obtain ⟨y, hy, hamount'⟩ := hk j _ (hrow hj)
  rw [hamount, hamount']
  obtain ⟨hlt, hx⟩ := List.getElem?_eq_some_iff.mp hx
  obtain ⟨hlt', hy⟩ := List.getElem?_eq_some_iff.mp hy
  have hxy := hsame.get hlt hlt'
  rwa [List.get_eq_getElem, List.get_eq_getElem, hx, hy] at hxy

/-- A result that is sorted by selected keys has them in its columns. -/
theorem keyed_of_rows {fields : List String} {exprs : List Expr} (ho : SelectedOrder engine fields exprs order)
    {names : List String} (hnames : columnNames exprs = .ok names) {n : Nat} {row : Nat → List Value}
    (hrow : ∀ i < n, (row i).length = exprs.length ∧ ∀ item ∈ order, ∀ (k : Nat) (e : Expr),
      exprs[k]? = some e → (e = item.expr ∨ ∃ name, e = .aliased item.expr name) →
      ∃ x, (row i)[k]? = some x ∧
        item.expr.amount engine (Labelled.ofList (names.zip (row i))) = .ok x) :
    Keyed engine order
      ⟨names, ((List.range n).map fun i => Labelled.ofList (names.zip (row i))).toArray⟩ := by
  obtain ⟨hnodup, hlength⟩ := of_columnNames hnames
  intro item hitem
  obtain ⟨e, he, hsame⟩ : ∃ e ∈ exprs, e = item.expr ∨ ∃ name, e = .aliased item.expr name := by
    rcases ho.selected item hitem with h | ⟨name, h⟩
    · exact ⟨_, h, .inl rfl⟩
    · exact ⟨_, h, .inr ⟨name, rfl⟩⟩
  obtain ⟨k, hk⟩ := List.mem_iff_getElem?.mp he
  refine ⟨k, fun i r hr => ?_⟩
  obtain ⟨hi, rfl⟩ : i < n ∧ Labelled.ofList (names.zip (row i)) = r := by
    simpa [List.getElem?_eq_some_iff] using hr
  obtain ⟨hwidth, hkeys⟩ := hrow i hi
  obtain ⟨x, hx, hamount⟩ := hkeys item hitem k e hk hsame
  exact ⟨x, by rwa [cells_of_zip hnodup (hwidth.trans hlength.symm) hr], hamount⟩

end View

end TableQuery
