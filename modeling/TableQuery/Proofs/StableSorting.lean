/-
Sorting keeps the first of a kind the first.

Rows that are the same in all columns have the same keys when they are sorted by columns. A stable sort
leaves such rows in their order, so the rows that equal no earlier one are the same rows before and after,
and come in the order into which sorting puts them among all.

* `Value.sortCompare_of_same`, `compareKeys_of_same` — what is the same as a key of groups is level in the
  order;
* `pairwise_sortPlaces` — rows of one kind stay in their order;
* `View.Complete.distinct_take_sortPlaces` — the distinct rows of sorted rows are the distinct rows, sorted.
-/
import TableQuery.Proofs.DistinctRows

namespace TableQuery

/-! ### Keys that are level -/

namespace Value

theorem sortCompare_of_same {x y : Value} (h : x.Same y) : x.sortCompare y = .eq := by
  have hkey : x.sameKey y = true := (sameKey_iff x y).mpr h
  rwa [sameKey_eq_sortCompare, beq_iff_eq] at hkey

theorem Same.symm {x y : Value} (h : x.Same y) : y.Same x := by
  rw [← sameKey_iff] at h ⊢
  rwa [sameKey_comm]

end Value

/-- Keys that are the same item by item are level in any directions. -/
theorem compareKeys_of_same {xs ys : List Value} (h : List.Forall₂ Value.Same xs ys) :
    ∀ directions, compareKeys directions xs ys = .eq := by
  induction h with
  | nil => intro directions; cases directions <;> simp [compareKeys]
  | @cons x y xs ys hxy _ ih =>
    rintro (_ | ⟨d, directions⟩)
    · simp [compareKeys]
    · rw [compareKeys_cons, ih]
      cases d with
      | ascending => rw [Direction.order, Value.sortCompare_of_same hxy]; rfl
      | descending => rw [Direction.order, Value.sortCompare_of_same hxy.symm]; rfl

/-! ### Rows of one kind -/

section Places

variable {cells key : Nat → List Value} {directions : List Direction} {n : Nat}

/-- Rows that are the same in all columns stay in their order if they have the same keys. -/
theorem pairwise_sortPlaces (hlength : ∀ i, (key i).length = directions.length)
    (hkey : ∀ i < n, ∀ j < n, List.Forall₂ Value.Same (cells i) (cells j) →
      compareKeys directions (key i) (key j) = .eq) :
    (sortPlaces directions key (List.range n)).Pairwise fun i j =>
      List.Forall₂ Value.Same (cells i) (cells j) → i < j := by
  refine (level_sortPlaces hlength n).imp_of_mem ?_
  intro i j hi hj hlevel hsame
  have hplaces : ∀ k ∈ sortPlaces directions key (List.range n), k < n := fun k hk =>
    List.mem_range.mp ((sortPlaces_perm directions key _).subset hk)
  exact hlevel (hkey i (hplaces i hi) j (hplaces j hj) hsame)

/-- The first places of their kind among all places in their new order are the first places, sorted. -/
theorem firstPlaces_sortPlaces (hlength : ∀ i, (key i).length = directions.length)
    (hkey : ∀ i < n, ∀ j < n, List.Forall₂ Value.Same (cells i) (cells j) →
      compareKeys directions (key i) (key j) = .eq) {sorted : List Nat}
    (hsorted : sortPlaces directions key (List.range n) = sorted) :
    (firstPlaces (fun k => cells (sorted.getD k 0)) n).map (fun k => sorted.getD k 0) =
      sortPlaces directions key (firstPlaces cells n) := by
  have hpairwise := pairwise_sortPlaces hlength hkey
  have hperm := sortPlaces_perm directions key (List.range n)
  let first (j : Nat) : Bool := (List.range j).all fun i => !Value.sameKeys (cells i) (cells j)
  have hfilter : sortPlaces directions key (firstPlaces cells n) = sorted.filter first := by
    rw [firstPlaces, sortPlaces_filter hlength, hsorted]
  rw [hsorted] at hpairwise hperm
  have hn : sorted.length = n := by simpa using hperm.length_eq
  have hall : (List.range n).map (fun k => sorted.getD k 0) = sorted := by
    rw [← hn]
    exact (Step.map_range_getD sorted id).trans (List.map_id _)
  rw [hfilter]
  conv_rhs => rw [← hall, List.filter_map]
  rw [firstPlaces]
  congr 1
  refine List.filter_congr fun k hk => ?_
  have hk : k < sorted.length := hn ▸ List.mem_range.mp hk
  have hget : ∀ {l} (hl : l < sorted.length), sorted.getD l 0 = sorted[l] := fun hl => by simp [hl]
  rw [Bool.eq_iff_iff]
  simp only [first, Function.comp_apply, List.all_eq_true, List.mem_range, Bool.not_eq_true',
    ← Bool.not_eq_true, Value.sameKeys_iff, hget hk]
  constructor
  · -- a row of the kind that stood before stands before still
    intro hnone i hi hsame
    have hlt : i < n := hi.trans (List.mem_range.mp (hperm.subset (List.getElem_mem hk)))
    obtain ⟨l, hl, rfl⟩ := List.mem_iff_getElem.mp (hperm.symm.subset (List.mem_range.mpr hlt))
    rcases Nat.lt_trichotomy l k with hlk | rfl | hkl
    · exact hnone l hlk (by rwa [hget hl])
    · exact absurd hi (Nat.lt_irrefl _)
    · have hback := List.pairwise_iff_getElem.mp hpairwise k l hk hl hkl
        (hsame.flip.imp fun _ _ h => h.symm)
      exact absurd hi (Nat.lt_asymm hback)
  · intro hnone l hl hsame
    rw [hget (hl.trans hk)] at hsame
    exact hnone _ (List.pairwise_iff_getElem.mp hpairwise l k (hl.trans hk) hk hl hsame) hsame

end Places

/-- The distinct rows of sorted rows are the distinct rows, sorted. -/
theorem View.Complete.distinct_take_sortPlaces {v : View} (hv : v.Complete)
    {key : Nat → List Value} {directions : List Direction}
    (hlength : ∀ i, (key i).length = directions.length)
    (hkey : ∀ i < v.size, ∀ j < v.size, List.Forall₂ Value.Same (v.cells i) (v.cells j) →
      compareKeys directions (key i) (key j) = .eq) :
    (v.take (sortPlaces directions key (List.range v.size))).distinct =
      v.take (sortPlaces directions key (firstPlaces v.cells v.size)) := by
  generalize hsorted : sortPlaces directions key (List.range v.size) = sorted
  have hperm := hsorted ▸ sortPlaces_perm directions key (List.range v.size)
  have hplaces : ∀ i ∈ sorted, i < v.size := fun i hi => List.mem_range.mp (hperm.subset hi)
  have hlen : sorted.length = v.size := by simpa using hperm.length_eq
  have hsize : (v.take sorted).size = v.size := by rw [size_take v hplaces, hlen]
  have hcells : ∀ k < v.size, (v.take sorted).cells k = v.cells (sorted.getD k 0) := fun k hk =>
    cells_take hplaces (by simp [hlen, hk])
  have hfirst : firstPlaces (v.take sorted).cells v.size =
      firstPlaces (fun k => v.cells (sorted.getD k 0)) v.size := by
    refine List.filter_congr fun k hk => ?_
    have hk := List.mem_range.mp hk
    rw [hcells k hk]
    rw [Bool.eq_iff_iff, List.all_eq_true, List.all_eq_true]
    exact forall₂_congr fun i hi => by rw [hcells i ((List.mem_range.mp hi).trans hk)]
  have htaken : (v.take sorted).take (firstPlaces (v.take sorted).cells v.size) = _ :=
    (hv.take sorted).take_eq fun k hk => hsize ▸ (mem_firstPlaces.mp hk).1
  have hall : v.take (sortPlaces directions key (firstPlaces v.cells v.size)) = _ :=
    hv.take_eq fun i hi => (mem_firstPlaces.mp ((sortPlaces_perm _ _ _).subset hi)).1
  rw [distinct, hsize, htaken, hall, ← firstPlaces_sortPlaces hlength hkey hsorted, hfirst, List.map_map]
  refine congrArg (fun rows => View.mk v.fields (List.toArray rows)) (List.map_congr_left fun k hk => ?_)
  show Labelled.ofList (v.fields.zip _) = Labelled.ofList (v.fields.zip _)
  rw [hcells k (mem_firstPlaces.mp hk).1]

end TableQuery
