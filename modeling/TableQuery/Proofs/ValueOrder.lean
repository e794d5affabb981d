/-
The order in which values are sorted is total and transitive.

The laws are stated as the instances `Std.OrientedCmp` and `Std.TransCmp`, for numbers, where what
is not a number stands behind all numbers, and from them for values. Equal values stand together
in the order (`Value.sortCompare_of_equal`), though values that do need not be equal: Null and what is
not a number equal nothing.
-/
import TableQuery.Value.Order

namespace TableQuery

/-- Transitivity of an order, as one equation: below the middle the first comparison decides, and
level with it the second does. -/
theorem compare_eq_then {α : Type} {cmp : α → α → Ordering} [Std.TransCmp cmp] {a b c : α}
    (hab : cmp a b ≠ .gt) (hbc : cmp b c ≠ .gt) : cmp a c = (cmp a b).then (cmp b c) := by
  cases h : cmp a b with
  | gt => exact absurd h hab
  | eq => exact Std.TransCmp.congr_left h
  | lt =>
    refine Std.TransCmp.lt_of_lt_of_isLE h ?_
    cases hc : cmp b c with
    | gt => exact absurd hc hbc
    | lt | eq => rfl

theorem then_lt_of_ne_gt {o : Ordering} (h : o ≠ .gt) : o.then .lt = .lt := by
  cases o with
  | gt => exact absurd rfl h
  | lt | eq => rfl

namespace Number

theorem sortCompare_swap (x y : Float) : sortCompare x y = (sortCompare y x).swap := by
  rw [sortCompare, sortCompare]
  cases orderKey x <;> cases orderKey y <;> try rfl
  exact Std.OrientedOrd.eq_swap

instance : Std.TransCmp sortCompare where
  eq_swap := sortCompare_swap _ _
  isLE_trans {x y z} := by
    rw [sortCompare, sortCompare, sortCompare]
    cases orderKey x <;> cases orderKey y <;> cases orderKey z <;> try simp
    exact Std.TransCmp.isLE_trans

theorem sortCompare_of_equal {x y : Float} (h : equal x y = true) : sortCompare x y = .eq := by
  rw [equal] at h
  rw [sortCompare]
  cases hx : orderKey x with
  | none => simp [hx] at h
  | some a =>
    cases hy : orderKey y with
    | none => simp [hx, hy] at h
    | some b =>
      rw [hx, hy] at h
      rw [eq_of_beq h]
      exact Std.ReflOrd.compare_self

theorem equal_comm (x y : Float) : equal x y = equal y x := by
  rw [equal, equal]
  cases orderKey x <;> cases orderKey y <;> try rfl
  exact Bool.beq_comm

end Number

namespace Value

mutual

theorem sortCompare_swap : ∀ x y : Value, x.sortCompare y = (y.sortCompare x).swap
  | .null, y => by cases y <;> rfl
  | .boolean a, y => by
    cases y with
    | boolean b => exact Std.OrientedOrd.eq_swap
    | _ => rfl
  | .number x, y => by
    cases y with
    | number y => exact Number.sortCompare_swap x y
    | _ => rfl
  | .string s, y => by
    cases y with
    | string t => exact Std.OrientedOrd.eq_swap
    | _ => rfl
  | .list xs, y => by
    cases y with
    | list ys =>
      rw [sortCompare, sortCompare]
      exact sortCompareAll_swap xs ys
    | _ => rfl

theorem sortCompareAll_swap : ∀ xs ys : List Value,
    sortCompareAll xs ys = (sortCompareAll ys xs).swap
  | [], ys => by cases ys <;> rfl
  | x :: xs, [] => rfl
  | x :: xs, y :: ys => by
    rw [sortCompareAll, sortCompareAll, Ordering.swap_then, ← sortCompare_swap x y,
      ← sortCompareAll_swap xs ys]

end

/-- Values that are not all of one kind are ordered by their kinds. -/
theorem sortCompare_eq_then_of_kind {x y z : Value} (h : ¬(x.kind? = y.kind? ∧ y.kind? = z.kind?))
    (hxy : x.sortCompare y ≠ .gt) (hyz : y.sortCompare z ≠ .gt) :
    x.sortCompare z = (x.sortCompare y).then (y.sortCompare z) := by
  cases x <;> cases y <;> cases z <;> simp_all [sortCompare, kind?, then_lt_of_ne_gt]

mutual

theorem sortCompare_eq_then : ∀ {x y z : Value}, x.sortCompare y ≠ .gt → y.sortCompare z ≠ .gt →
    x.sortCompare z = (x.sortCompare y).then (y.sortCompare z)
  | .null, y, z, hxy, hyz => by cases y <;> cases z <;> simp_all [sortCompare]
  | .boolean a, y, z, hxy, hyz => by
    cases y with
    | boolean b =>
      cases z with
      | boolean d =>
        show compare a d = (compare a b).then (compare b d)
        exact compare_eq_then hxy hyz
      | _ => exact sortCompare_eq_then_of_kind (by simp [kind?]) hxy hyz
    | _ => exact sortCompare_eq_then_of_kind (by simp [kind?]) hxy hyz
  | .number x, y, z, hxy, hyz => by
    cases y with
    | number y =>
      cases z with
      | number z =>
        show Number.sortCompare x z = (Number.sortCompare x y).then (Number.sortCompare y z)
        exact compare_eq_then hxy hyz
      | _ => exact sortCompare_eq_then_of_kind (by simp [kind?]) hxy hyz
    | _ => exact sortCompare_eq_then_of_kind (by simp [kind?]) hxy hyz
  | .string s, y, z, hxy, hyz => by
    cases y with
    | string t =>
      cases z with
      | string u =>
        show compare s u = (compare s t).then (compare t u)
        exact compare_eq_then hxy hyz
      | _ => exact sortCompare_eq_then_of_kind (by simp [kind?]) hxy hyz
    | _ => exact sortCompare_eq_then_of_kind (by simp [kind?]) hxy hyz
  | .list xs, y, z, hxy, hyz => by
    cases y with
    | list ys =>
      cases z with
      | list zs =>
        rw [sortCompare] at hxy hyz ⊢
        rw [sortCompare, sortCompare]
        exact sortCompareAll_eq_then hxy hyz
      | _ => exact sortCompare_eq_then_of_kind (by simp [kind?]) hxy hyz
    | _ => exact sortCompare_eq_then_of_kind (by simp [kind?]) hxy hyz

theorem sortCompareAll_eq_then : ∀ {xs ys zs : List Value}, sortCompareAll xs ys ≠ .gt →
    sortCompareAll ys zs ≠ .gt →
    sortCompareAll xs zs = (sortCompareAll xs ys).then (sortCompareAll ys zs)
  | [], ys, zs, hxy, hyz => by cases ys <;> cases zs <;> simp_all [sortCompareAll]
  | x :: xs, [], zs, hxy, hyz => absurd rfl hxy
  | x :: xs, y :: ys, [], hxy, hyz => absurd rfl hyz
  | x :: xs, y :: ys, z :: zs, hxy, hyz => by
    rw [sortCompareAll] at hxy hyz ⊢
    rw [sortCompareAll, sortCompareAll]
    have hhead : x.sortCompare y ≠ .gt := fun h => by simp [h] at hxy
    have hhead' : y.sortCompare z ≠ .gt := fun h => by simp [h] at hyz
    rw [sortCompare_eq_then hhead hhead']
    cases h : x.sortCompare y with
    | gt => exact absurd h hhead
    | lt => rfl
    | eq =>
      cases h' : y.sortCompare z with
      | gt => exact absurd h' hhead'
      | lt =>
        rw [h] at hxy
        exact (then_lt_of_ne_gt hxy).symm
      | eq =>
        rw [h] at hxy
        rw [h'] at hyz
        exact sortCompareAll_eq_then hxy hyz

end

instance : Std.TransCmp sortCompare where
  eq_swap := sortCompare_swap _ _
  isLE_trans {x y z} hxy hyz := by
    have hxy' : x.sortCompare y ≠ .gt := fun h => by simp [h] at hxy
    have hyz' : y.sortCompare z ≠ .gt := fun h => by simp [h] at hyz
    rw [sortCompare_eq_then hxy' hyz']
    cases h : x.sortCompare y with
    | lt => rfl
    | eq => exact hyz
    | gt => exact absurd h hxy'

mutual

/-- Equal values stand together. -/
theorem sortCompare_of_equal : ∀ {x y : Value}, x.equal y = true → x.sortCompare y = .eq
  | .null, y, h => by cases y <;> cases h
  | .boolean a, y, h => by
    cases y with
    | boolean b =>
      rw [eq_of_beq (show (a == b) = true from h)]
      exact Std.ReflOrd.compare_self
    | _ => cases h
  | .number x, y, h => by
    cases y with
    | number y => exact Number.sortCompare_of_equal h
    | _ => cases h
  | .string s, y, h => by
    cases y with
    | string t =>
      rw [eq_of_beq (show (s == t) = true from h)]
      exact Std.ReflOrd.compare_self
    | _ => cases h
  | .list xs, y, h => by
    cases y with
    | list ys =>
      rw [equal] at h
      rw [sortCompare]
      exact sortCompareAll_of_equalAll h
    | _ => cases h

theorem sortCompareAll_of_equalAll : ∀ {xs ys : List Value}, equalAll xs ys = true →
    sortCompareAll xs ys = .eq
  | [], ys, h => by
    cases ys with
    | nil => rfl
    | cons y ys => cases h
  | x :: xs, [], h => by cases h
  | x :: xs, y :: ys, h => by
    rw [equalAll, Bool.and_eq_true] at h
    rw [sortCompareAll, sortCompare_of_equal h.1, sortCompareAll_of_equalAll h.2]
    rfl

end

theorem equal_null_left (y : Value) : null.equal y = false := by cases y <;> rfl

mutual

theorem equal_comm : ∀ x y : Value, x.equal y = y.equal x
  | .null, y => by cases y <;> rfl
  | .boolean a, y => by
    cases y with
    | boolean b => exact Bool.beq_comm
    | _ => rfl
  | .number x, y => by
    cases y with
    | number y => exact Number.equal_comm x y
    | _ => rfl
  | .string s, y => by
    cases y with
    | string t => exact Bool.beq_comm
    | _ => rfl
  | .list xs, y => by
    cases y with
    | list ys => exact equalAll_comm xs ys
    | _ => rfl

theorem equalAll_comm : ∀ xs ys : List Value, equalAll xs ys = equalAll ys xs
  | [], ys => by cases ys <;> rfl
  | x :: xs, [] => rfl
  | x :: xs, y :: ys => by
    rw [equalAll, equalAll, equal_comm x y, equalAll_comm xs ys]

end

theorem isNull_eq_of_sortCompare {x y : Value} (h : x.sortCompare y = .eq) :
    x.isNull = y.isNull := by
  cases x <;> cases y <;> simp_all [sortCompare, isNull]

end Value

end TableQuery
