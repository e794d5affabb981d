/-
Sorting and the comparisons of queries.

Every two values have a place in the order in which values are sorted, while only values of one kind compare
in a query, and Null and what is not a number not even with themselves. Where a comparison is true, though,
the order says the same.

* `IsTotalPreorder` — the laws of such an order;
* `Value.sortCompare_of_compare?` — values that compare stand as they compare;
* `Value.sortCompare_agrees` — values are sorted in a total preorder, to which `<`, `=` and `>` keep.
-/
import TableQuery.Operator.Binary
import TableQuery.Proofs.ValueOrder

namespace TableQuery

/-- The comparison reverses when its sides are exchanged, not to stand behind is transitive, and to stand
together is an equivalence that makes no difference to any comparison. -/
structure IsTotalPreorder {α : Type} (cmp : α → α → Ordering) : Prop where
  swap : ∀ a b, cmp a b = (cmp b a).swap
  trans : ∀ a b c, cmp a b ≠ .gt → cmp b c ≠ .gt → cmp a c ≠ .gt
  equivalence : Equivalence fun a b => cmp a b = .eq
  congr : ∀ a a' b b', cmp a a' = .eq → cmp b b' = .eq → cmp a b = cmp a' b'

theorem IsTotalPreorder.of_transCmp {α : Type} (cmp : α → α → Ordering) [Std.TransCmp cmp] :
    IsTotalPreorder cmp where
  swap _ _ := Std.OrientedCmp.eq_swap
  trans a b c hab hbc h := by
    rw [compare_eq_then hab hbc] at h
    cases hcase : cmp a b with
    | lt => rw [hcase] at h; cases h
    | eq => rw [hcase] at h; exact hbc h
    | gt => exact hab hcase
  equivalence :=
    ⟨fun _ => Std.ReflCmp.compare_self, Std.OrientedCmp.eq_symm, Std.TransCmp.eq_trans⟩
  congr a a' b b' ha hb := (Std.TransCmp.congr_left ha).trans (Std.TransCmp.congr_right hb)

namespace Value

/-- Values that compare in a query are sorted as they compare. -/
theorem sortCompare_of_compare? {x y : Value} {o : Ordering} (h : x.compare? y = some o) :
    x.sortCompare y = o := by
  cases x with
  | null | list => cases h
  | boolean a =>
    cases y with
    | boolean b => exact Option.some.inj h
    | _ => cases h
  | string s =>
    cases y with
    | string t => exact Option.some.inj h
    | _ => cases h
  | number x =>
    cases y with
    | number y =>
      show Number.sortCompare x y = o
      change Number.compare? x y = some o at h
      rw [Number.compare?] at h
      rw [Number.sortCompare]
      cases hx : Number.orderKey x <;> cases hy : Number.orderKey y <;> rw [hx, hy] at h
      · cases h
      · cases h
      · cases h
      · exact Option.some.inj h
    | _ => cases h

end Value

namespace BinaryOperator

/-- A comparison that is true was made between values that compare, and passes the test. -/
theorem comparison_eq_true {op : BinaryOperator} {x y : Value} {test : Ordering → Bool}
    (h : op.comparison x y test = .ok (.boolean true)) :
    ∃ o, x.compare? y = some o ∧ test o = true := by
  rw [comparison] at h
  cases hcompare : x.compare? y with
  | none =>
    rw [hcompare] at h
    dsimp only at h
    split at h <;> cases h
  | some o =>
    rw [hcompare] at h
    exact ⟨o, rfl, Value.boolean.inj (Except.ok.inj h)⟩

/-- Operators that are not logical are true of values that are not Null only. -/
theorem applyPresent_of_apply {op : BinaryOperator} {x y : Value} (hand : op ≠ and) (hor : op ≠ or)
    (h : op.apply x y = .ok (.boolean true)) : op.applyPresent x y = .ok (.boolean true) := by
  have happly : op.apply x y = if x.isNull || y.isNull then .ok .null else op.applyPresent x y := by
    cases op with
    | and => exact absurd rfl hand
    | or => exact absurd rfl hor
    | _ => rfl
  rw [happly] at h
  split at h
  · cases h
  · exact h

end BinaryOperator

namespace Value

/-- Values are sorted in a total preorder, and what a query finds less, equal or greater stands in front, in the
same place or behind. -/
theorem sortCompare_agrees : IsTotalPreorder sortCompare ∧ ∀ x y : Value,
    (BinaryOperator.lt.apply x y = .ok (.boolean true) → x.sortCompare y = .lt) ∧
    (BinaryOperator.eq.apply x y = .ok (.boolean true) → x.sortCompare y = .eq) ∧
    (BinaryOperator.gt.apply x y = .ok (.boolean true) → x.sortCompare y = .gt) := by
  refine ⟨.of_transCmp sortCompare, fun x y => ⟨fun h => ?_, fun h => ?_, fun h => ?_⟩⟩
  · have hpresent : BinaryOperator.lt.applyPresent x y = .ok (.boolean true) :=
      BinaryOperator.applyPresent_of_apply nofun nofun h
    obtain ⟨o, hcompare, ho⟩ := BinaryOperator.comparison_eq_true hpresent
    rw [sortCompare_of_compare? hcompare]
    exact eq_of_beq ho
  · have hpresent : BinaryOperator.eq.applyPresent x y = .ok (.boolean true) :=
      BinaryOperator.applyPresent_of_apply nofun nofun h
    exact sortCompare_of_equal (boolean.inj (Except.ok.inj hpresent))
  · have hpresent : BinaryOperator.gt.applyPresent x y = .ok (.boolean true) :=
      BinaryOperator.applyPresent_of_apply nofun nofun h
    obtain ⟨o, hcompare, ho⟩ := BinaryOperator.comparison_eq_true hpresent
    rw [sortCompare_of_compare? hcompare]
    exact eq_of_beq ho

/-- Numbers in lists are sorted, and lists behind them. -/
theorem sortCompare_agrees_lists :
    (list [null, .ofNat 1]).sortCompare (list [null, .ofNat 1]) = .eq ∧
      (Value.ofNat 1).sortCompare (.ofNat 2) = .lt := by
  have hless : BinaryOperator.lt.apply (.ofNat 1) (.ofNat 2) = .ok (.boolean true) := rfl
  exact ⟨sortCompare_agrees.1.equivalence.refl _, (sortCompare_agrees.2 _ _).1 hless⟩

end Value

end TableQuery
