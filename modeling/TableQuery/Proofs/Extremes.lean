/-
The greatest and the least value of a column.

A fold through the values keeps the best so far. A value of another kind makes it fail wherever it
stands, but one of the same kind that does not compare is passed over, and what does not compare
with itself is never replaced. So the order of the rows matters in one way: a list, or what is not a
number, stays when it comes first.

* `Function.foldlM_better` — the fold finds a best value, unless the first one does not compare;
* `Function.Covers` — dropping equal values leaves enough of a column for that;
* `Function.extreme_cases` — when the functions fail, and what they give otherwise;
* `Function.extremes_of_perm` — what they give when the rows come in another order.
-/
import TableQuery.Function.Aggregate
import TableQuery.Proofs.SameKeys
import TableQuery.Proofs.SortLaws

namespace TableQuery

/-! ### Values that compare -/

namespace Value

/-- The value compares with what is of its kind: a truth, a text, or a number that is one. -/
def isOrdered : Value → Bool
  | boolean _ => true
  | string _ => true
  | number x => !Number.isNotANumber x
  | _ => false

theorem compare?_of_kind {x y : Value} (h : x.kind? = y.kind?) :
    x.compare? y = if x.isOrdered && y.isOrdered then some (x.sortCompare y) else none := by
  cases x <;> cases y <;> try cases h
  case number.number x y =>
    show Number.compare? x y = if _ then some (Number.sortCompare x y) else none
    rw [Number.compare?, Number.sortCompare, isOrdered, isOrdered, Number.orderKey, Number.orderKey]
    cases Number.isNotANumber x <;> cases Number.isNotANumber y <;> rfl
  all_goals rfl

theorem kind?_of_equal {x y : Value} (h : x.equal y = true) : x.kind? = y.kind? := by
  cases x <;> cases y <;> first | rfl | cases h

theorem compare?_of_kind_ne {x y : Value} (h : x.kind? ≠ y.kind?) : x.compare? y = none := by
  cases x <;> cases y <;> first | rfl | exact absurd rfl h

theorem isOrdered_of_sameKey {x y : Value} (h : x.sameKey y = true) : x.isOrdered = y.isOrdered := by
  cases (sameKey_iff x y).mp h with
  | @number x y hequal =>
    have hx : Number.isNotANumber x = false := Bool.eq_false_iff.mpr fun hx => by
      rw [Number.equal_comm, Number.equal_of_notANumber hx] at hequal
      cases hequal
    have hy : Number.isNotANumber y = false := Bool.eq_false_iff.mpr fun hy => by
      rw [Number.equal_of_notANumber hy] at hequal
      cases hequal
    rw [isOrdered, isOrdered, hx, hy]
  | notANumber hx hy => rw [isOrdered, isOrdered, hx, hy]
  | _ => rfl

end Value

namespace Function

variable {name : String} {wanted : Ordering} {column values rest : List Value} {v w r : Value}

/-! ### The fold -/

theorem better_of_kind (name : String) (wanted : Ordering) (h : w.kind? = v.kind?) :
    better name wanted v w =
      .ok (if v.isOrdered = true ∧ w.isOrdered = true ∧ w.sortCompare v = wanted then w else v) := by
  rw [better, Value.compare?_of_kind h]
  cases v.isOrdered <;> cases w.isOrdered <;> simp [h]

theorem better_of_kind_ne (name : String) (wanted : Ordering) (h : w.kind? ≠ v.kind?) :
    better name wanted v w = .error (.incomparable name w.kindName v.kindName) := by
  rw [better, Value.compare?_of_kind_ne h]
  exact if_neg h

/-- One of the values, and none of those that compare is better. -/
structure IsExtreme (wanted : Ordering) (column : List Value) (v : Value) : Prop where
  mem : v ∈ column
  isOrdered : v.isOrdered = true
  not_better : ∀ w ∈ column, w.isOrdered = true → w.sortCompare v ≠ wanted

/-- The best of some values stays the best beside one more, or that one is. -/
theorem IsExtreme.better (h : IsExtreme wanted column v) (hwanted : wanted ≠ .eq) (w : Value) :
    IsExtreme wanted (column ++ [w])
      (if v.isOrdered = true ∧ w.isOrdered = true ∧ w.sortCompare v = wanted then w else v) := by
  split
  · next hbetter =>
    obtain ⟨-, hw, hcompare⟩ := hbetter
    refine ⟨by simp, hw, fun x hx hordered hxw => ?_⟩
    rcases List.mem_append.mp hx with hx | hx
    · refine h.not_better x hx hordered ?_
      cases wanted with
      | lt => exact Std.TransCmp.lt_trans hxw hcompare
      | eq => exact absurd rfl hwanted
      | gt => exact Std.TransCmp.gt_trans hxw hcompare
    · obtain rfl := List.mem_singleton.mp hx
      exact hwanted (hxw.symm.trans Std.ReflCmp.compare_self)
  · next hnot =>
    refine ⟨List.mem_append_left _ h.mem, h.isOrdered, fun x hx hordered hxv => ?_⟩
    rcases List.mem_append.mp hx with hx | hx
    · exact h.not_better x hx hordered hxv
    · obtain rfl := List.mem_singleton.mp hx
      exact hnot ⟨h.isOrdered, hordered, hxv⟩

theorem foldlM_better_of_kind_ne (h : ∃ w ∈ rest, w.kind? ≠ v.kind?) :
    ∃ e, rest.foldlM (better name wanted) v = .error e := by
  induction rest generalizing v with
  | nil => simp at h
  | cons x rest ih =>
    rw [List.foldlM_cons]
    by_cases hx : x.kind? = v.kind?
    · obtain ⟨w, hw, hkind⟩ := h
      have hw : w ∈ rest := (List.mem_cons.mp hw).resolve_left fun hwx => hkind (hwx ▸ hx)
      rw [better_of_kind name wanted hx]
      refine ih ⟨w, hw, ?_⟩
      split
      · rwa [hx]
      · exact hkind
    · rw [better_of_kind_ne name wanted hx]
      exact ⟨_, rfl⟩

/-- What does not compare stays in front of values of its kind. -/
theorem foldlM_better_of_unordered (hv : v.isOrdered = false) (h : ∀ w ∈ rest, w.kind? = v.kind?) :
    rest.foldlM (better name wanted) v = .ok v := by
  induction rest with
  | nil => rfl
  | cons x rest ih =>
    rw [List.foldlM_cons, better_of_kind name wanted (h x List.mem_cons_self), hv]
    exact ih fun w hw => h w (List.mem_cons_of_mem _ hw)

/-- From a value that compares the fold comes to the best of those that do. -/
theorem foldlM_better (hwanted : wanted ≠ .eq) (hv : v.isOrdered = true)
    (h : ∀ w ∈ rest, w.kind? = v.kind?) :
    ∃ r, rest.foldlM (better name wanted) v = .ok r ∧ r.kind? = v.kind? ∧
      IsExtreme wanted (v :: rest) r := by
  induction rest using List.reverseRecOn with
  | nil =>
    refine ⟨v, rfl, rfl, List.mem_cons_self, hv, fun w hw _ => ?_⟩
    obtain rfl := List.mem_singleton.mp hw
    exact fun hself => hwanted (hself.symm.trans Std.ReflCmp.compare_self)
  | append_singleton rest w ih =>
    obtain ⟨r, hr, hkind, hextreme⟩ := ih fun w hw => h w (List.mem_append_left _ hw)
    have hw : w.kind? = r.kind? := (h w (by simp)).trans hkind.symm
    have hstep : (rest ++ [w]).foldlM (Function.better name wanted) v =
        Function.better name wanted r w := by
      rw [List.foldlM_append, hr]
      show [w].foldlM (Function.better name wanted) r = _
      rw [List.foldlM_cons]
      cases Function.better name wanted r w <;> rfl
    refine ⟨_, hstep.trans (better_of_kind name wanted hw), ?_, hextreme.better hwanted w⟩
    split
    · rw [hw, hkind]
    · exact hkind

/-! ### Columns -/

/-- What is left of a column without some of its values: the first value is, and for every value there
is one that equals it unless it is still there. -/
structure Covers (column values : List Value) : Prop where
  subset : values ⊆ column
  head? : values.head? = column.head?
  equal : ∀ v ∈ column, ∃ w ∈ values, w = v ∨ w.equal v = true

theorem Covers.refl (column : List Value) : Covers column column :=
  ⟨List.Subset.refl _, rfl, fun v hv => ⟨v, hv, .inl rfl⟩⟩

theorem Covers.addDistinct (h : Covers column values) (v : Value) :
    Covers (column ++ [v]) (addDistinct values v) := by
  have hhead : ∀ w ∈ values, (column ++ [v]).head? = values.head? := by
    intro w hw
    rw [h.head?, List.head?_append_of_ne_nil _ (List.ne_nil_of_mem (h.subset hw))]
  rw [Function.addDistinct]
  split
  · next hany =>
    obtain ⟨w, hw, hequal⟩ := List.any_eq_true.mp hany
    refine ⟨fun x hx => List.mem_append_left _ (h.subset hx), (hhead w hw).symm, fun x hx => ?_⟩
    rcases List.mem_append.mp hx with hx | hx
    · exact h.equal x hx
    · exact ⟨w, hw, .inr (List.mem_singleton.mp hx ▸ hequal)⟩
  · refine ⟨?_, ?_, fun x hx => ?_⟩
    · exact List.append_subset.mpr ⟨fun x hx => List.mem_append_left _ (h.subset hx), by simp⟩
    · rw [List.head?_append, List.head?_append, h.head?]
    · rcases List.mem_append.mp hx with hx | hx
      · obtain ⟨w, hw, hequal⟩ := h.equal x hx
        exact ⟨w, List.mem_append_left _ hw, hequal⟩
      · exact ⟨x, List.mem_append_right _ hx, .inl rfl⟩

theorem covers_foldl_addDistinct (column : List Value) :
    Covers column (column.foldl addDistinct []) := by
  induction column using List.reverseRecOn with
  | nil => exact .refl []
  | append_singleton column v ih =>
    rw [List.foldl_append]
    exact ih.addDistinct v

/-- The columns of aggregates cover the first arguments that are not Null. -/
theorem exists_column {ts : Tuples} (hts : ∀ t ∈ ts, t.length = 1) {q : Option Quantifier}
    (hq : q ≠ some .all) (name : String) :
    ∃ values, Function.column name ts q = .ok values ∧ Covers (firstColumn ts) values := by
  have hargument : ts.head?.any List.isEmpty = false := by
    cases ts with
    | nil => rfl
    | cons t ts =>
      have ht := hts t List.mem_cons_self
      cases t with
      | nil => cases ht
      | cons => rfl
  cases q with
  | none =>
    rw [Function.column, hargument]
    exact ⟨_, rfl, .refl _⟩
  | some q =>
    cases q with
    | distinct =>
      rw [Function.column, hargument]
      exact ⟨_, rfl, covers_foldl_addDistinct _⟩
    | all => exact absurd rfl hq

/-- The best of what is left of a column is the best of the column. -/
theorem IsExtreme.of_covers (h : IsExtreme wanted values r) (hcovers : Covers column values) :
    IsExtreme wanted column r := by
  refine ⟨hcovers.subset h.mem, h.isOrdered, fun v hv hordered hbetter => ?_⟩
  obtain ⟨w, hw, rfl | hequal⟩ := hcovers.equal v hv
  · exact h.not_better w hw hordered hbetter
  · have hsame : w.sortCompare v = .eq := Value.sortCompare_of_equal hequal
    refine h.not_better w hw ?_ ((Std.TransCmp.congr_left hsame).trans hbetter)
    rw [Value.isOrdered_of_sameKey (Value.sameKey_of_equal hequal), hordered]

/-- Two best values of one column fall into one group. -/
theorem IsExtreme.sameKey (hv : IsExtreme wanted column v) (hw : IsExtreme wanted column w) :
    v.sameKey w = true := by
  have hself : Ordering.eq ≠ wanted := by
    have hne := hv.not_better v hv.mem hv.isOrdered
    rwa [(Std.ReflCmp.compare_self : v.sortCompare v = .eq)] at hne
  have hvw := hw.not_better v hv.mem hv.isOrdered
  have hwv := hv.not_better w hw.mem hw.isOrdered
  have hswap : v.sortCompare w = (w.sortCompare v).swap := Std.OrientedCmp.eq_swap
  rw [Value.sameKey_eq_sortCompare, hswap]
  rw [hswap] at hvw
  generalize w.sortCompare v = o at hvw hwv
  revert hself hvw hwv
  cases o <;> cases wanted <;> decide

theorem IsExtreme.of_perm {column' : List Value} (h : IsExtreme wanted column v)
    (hperm : column.Perm column') : IsExtreme wanted column' v :=
  ⟨hperm.mem_iff.mp h.mem, h.isOrdered, fun w hw => h.not_better w (hperm.mem_iff.mpr hw)⟩

/-! ### Results -/

/-- The first argument that is not Null, or else Null. -/
def first (ts : Tuples) : Value := (firstColumn ts).head?.getD .null

/-- The functions fail when values of two kinds are there. Otherwise they give a best value, but for one
that does not compare and comes first. -/
theorem extreme_cases (name : String) (hwanted : wanted ≠ .eq) {ts : Tuples}
    (hts : ∀ t ∈ ts, t.length = 1) {q : Option Quantifier} (hq : q ≠ some .all) :
    ((∃ v ∈ firstColumn ts, ∃ w ∈ firstColumn ts, v.kind? ≠ w.kind?) ∧
      ∃ e, extreme name wanted ts false q = .error e) ∨
    (∀ v ∈ firstColumn ts, ∀ w ∈ firstColumn ts, v.kind? = w.kind?) ∧
      ∃ r, extreme name wanted ts false q = .ok r ∧
        if (first ts).isOrdered then IsExtreme wanted (firstColumn ts) r else r = first ts := by
  obtain ⟨values, hvalues, hcovers⟩ := exists_column hts hq name
  cases values with
  | nil =>
    have hnil : firstColumn ts = [] := List.head?_eq_none_iff.mp hcovers.head?.symm
    have hresult : extreme name wanted ts false q = .ok .null := by
      rw [extreme, hvalues]
      rfl
    refine .inr ⟨by simp [hnil], .null, hresult, ?_⟩
    rw [first, hnil]
    rfl
  | cons v rest =>
    have hfold : extreme name wanted ts false q = rest.foldlM (better name wanted) v := by
      rw [extreme, hvalues]
      rfl
    have hfirst : first ts = v := by
      rw [first, ← hcovers.head?]
      rfl
    rw [hfold, hfirst]
    -- either all values compare with the first one, or one of them makes the comparison fail
    by_cases hkinds : ∀ w ∈ rest, w.kind? = v.kind?
    · have hall : ∀ w ∈ firstColumn ts, w.kind? = v.kind? := by
        have hvalue : ∀ w ∈ v :: rest, w.kind? = v.kind? := List.forall_mem_cons.mpr ⟨rfl, hkinds⟩
        intro w hw
        obtain ⟨x, hx, rfl | hequal⟩ := hcovers.equal w hw
        · exact hvalue x hx
        · exact (Value.kind?_of_equal hequal).symm.trans (hvalue x hx)
      refine .inr ⟨fun x hx y hy => (hall x hx).trans (hall y hy).symm, ?_⟩
      cases hv : v.isOrdered with
      | true =>
        obtain ⟨r, hr, -, hbest⟩ := foldlM_better hwanted hv hkinds
        exact ⟨r, hr, hbest.of_covers hcovers⟩
      | false => exact ⟨v, foldlM_better_of_unordered hv hkinds, rfl⟩
    · obtain ⟨w, hw, hkind⟩ : ∃ w ∈ rest, w.kind? ≠ v.kind? := by simpa using hkinds
      have hw' : w ∈ firstColumn ts := hcovers.subset (List.mem_cons_of_mem _ hw)
      have hv' : v ∈ firstColumn ts := hcovers.subset List.mem_cons_self
      exact .inl ⟨⟨w, hw', v, hv', hkind⟩, foldlM_better_of_kind_ne ⟨w, hw, hkind⟩⟩

theorem isOrdered_of_best {ts : Tuples}
    (h : if (first ts).isOrdered then IsExtreme wanted (firstColumn ts) r else r = first ts) :
    r.isOrdered = (first ts).isOrdered := by
  cases hfirst : (first ts).isOrdered with
  | true =>
    rw [hfirst] at h
    exact h.isOrdered
  | false =>
    rw [hfirst] at h
    exact (congrArg Value.isOrdered h).trans hfirst

theorem firstColumn_perm {ts ts' : Tuples} (h : ts.Perm ts') : (firstColumn ts).Perm (firstColumn ts') :=
  (h.filterMap _).filter _

/-- Rows in another order have the same result, unless one of the orders begins with a value that does not
compare. -/
theorem extreme_of_perm (name : String) (hwanted : wanted ≠ .eq) {ts ts' : Tuples} (hperm : ts.Perm ts')
    (hts : ∀ t ∈ ts, t.length = 1) (empty : Bool) {q : Option Quantifier} (hq : q ≠ some .all) :
    (∃ e e', extreme name wanted ts empty q = .error e ∧ extreme name wanted ts' empty q = .error e') ∨
    ∃ r r', extreme name wanted ts empty q = .ok r ∧ extreme name wanted ts' empty q = .ok r' ∧
      (r.sameKey r' = true ↔ empty = true ∨
        ((first ts).isOrdered = true ∧ (first ts').isOrdered = true) ∨
        (first ts).sameKey (first ts') = true) := by
  cases empty with
  | true => exact .inr ⟨.null, .null, rfl, rfl, iff_of_true rfl (.inl rfl)⟩
  | false =>
    have hcolumn := firstColumn_perm hperm
    have hts' : ∀ t ∈ ts', t.length = 1 := fun t ht => hts t (hperm.mem_iff.mpr ht)
    obtain ⟨⟨v, hv, w, hw, hkind⟩, e, he⟩ | ⟨hkinds, r, hr, hbest⟩ :=
        extreme_cases name hwanted hts hq <;>
      obtain ⟨⟨v', hv', w', hw', hkind'⟩, e', he'⟩ | ⟨hkinds', r', hr', hbest'⟩ :=
        extreme_cases name hwanted hts' hq
    · exact .inl ⟨e, e', he, he'⟩
    · exact absurd (hkinds' v (hcolumn.mem_iff.mp hv) w (hcolumn.mem_iff.mp hw)) hkind
    · exact absurd (hkinds v' (hcolumn.mem_iff.mpr hv') w' (hcolumn.mem_iff.mpr hw')) hkind'
    · refine .inr ⟨r, r', hr, hr', ?_⟩
      rw [or_iff_right Bool.false_ne_true]
      -- a value that compares is in no group with one that does not
      by_cases hsame : (first ts).isOrdered = (first ts').isOrdered
      · cases hfirst : (first ts).isOrdered <;> rw [hfirst] at hbest <;>
          rw [← hsame, hfirst] at hbest'
        case true =>
          exact iff_of_true (hbest.sameKey (hbest'.of_perm hcolumn.symm)) (.inl ⟨rfl, hsame ▸ hfirst⟩)
        case false =>
          obtain rfl : r = first ts := hbest
          obtain rfl : r' = first ts' := hbest'
          exact (or_iff_right fun h => Bool.false_ne_true h.1).symm
      · refine iff_of_false (fun h => hsame ?_) ?_
        · rw [← isOrdered_of_best hbest, ← isOrdered_of_best hbest', Value.isOrdered_of_sameKey h]
        · rintro (⟨hfirst, hfirst'⟩ | h)
          · exact hsame (hfirst.trans hfirst'.symm)
          · exact hsame (Value.isOrdered_of_sameKey h)

/-- `max` and `min` of rows in another order fail alike, or have results that fall into one group just if
there are no rows, or the values that come first compare or fall into one group. -/
theorem extremes_of_perm {ts ts' : Tuples} (hperm : ts.Perm ts') (hts : ∀ t ∈ ts, t.length = 1)
    (empty : Bool) {q : Option Quantifier} (hq : q = none ∨ q = some .distinct) :
    ∀ f ∈ [Function.max, Function.min],
      (∃ e e', f ts empty q = .error e ∧ f ts' empty q = .error e') ∨
      ∃ r r', f ts empty q = .ok r ∧ f ts' empty q = .ok r' ∧
        (r.sameKey r' = true ↔ empty = true ∨
          ((first ts).isOrdered = true ∧ (first ts').isOrdered = true) ∨
          (first ts).sameKey (first ts') = true) := by
  have hall : q ≠ some .all := by rcases hq with rfl | rfl <;> nofun
  have hgreatest : Ordering.gt ≠ .eq := by decide
  have hleast : Ordering.lt ≠ .eq := by decide
  rw [List.forall_mem_cons, List.forall_mem_singleton]
  exact ⟨extreme_of_perm "max" hgreatest hperm hts empty hall,
    extreme_of_perm "min" hleast hperm hts empty hall⟩

/-- Numbers with Null between them. -/
def withNull : Tuples := [[.ofNat 2], [.null], [.ofNat 1], [.ofNat 2]]

theorem extremes_of_perm_withNull :
    withNull.Perm withNull.reverse ∧ (∀ t ∈ withNull, t.length = 1) ∧
    ∀ f ∈ [Function.max, Function.min], ∃ r r', f withNull false (some .distinct) = .ok r ∧
      f withNull.reverse false (some .distinct) = .ok r' ∧ r.sameKey r' = true := by
  have hperm : withNull.Perm withNull.reverse := (List.reverse_perm withNull).symm
  have hlength : ∀ t ∈ withNull, t.length = 1 := by simp [withNull]
  refine ⟨hperm, hlength, fun f hf => ?_⟩
  obtain ⟨e, -, he, -⟩ | ⟨r, r', hr, hr', hiff⟩ :=
    extremes_of_perm hperm hlength false (.inr rfl) f hf
  · have hok : (f withNull false (some .distinct)).toOption.isSome = true := by
      obtain rfl | rfl := List.mem_pair.mp hf <;> decide +kernel
    rw [he] at hok
    cases hok
  · have hordered : (first withNull).isOrdered = true ∧ (first withNull.reverse).isOrdered = true := by
      decide +kernel
    exact ⟨r, r', hr, hr', hiff.mpr (.inr (.inl hordered))⟩

/-- Of two lists the first one stays, in either order. -/
theorem not_forall_extremes_of_perm : ¬ ∀ (ts ts' : Tuples) (empty : Bool) (q : Option Quantifier),
    ts.Perm ts' → (∀ t ∈ ts, t.length = 1) → (q = none ∨ q = some .distinct) →
    ∀ f ∈ [Function.max, Function.min],
      (∃ e e', f ts empty q = .error e ∧ f ts' empty q = .error e') ∨
      ∃ r r', f ts empty q = .ok r ∧ f ts' empty q = .ok r' ∧ r.sameKey r' = true := by
  intro h
  have hswap := h [[.list [.ofNat 1]], [.list [.ofNat 2]]] [[.list [.ofNat 2]], [.list [.ofNat 1]]] false
    none (.swap ..) (by simp) (.inl rfl) Function.max (by simp)
  obtain ⟨_, _, he, -⟩ | ⟨r, r', hr, hr', hsame⟩ := hswap
  · cases he
  · cases hr
    cases hr'
    exact absurd hsame (by decide +kernel)

end Function

end TableQuery
