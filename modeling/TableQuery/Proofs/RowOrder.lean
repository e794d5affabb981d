/-
The order in which rows are sorted.

Keys are compared position by position, each in its own direction. For keys of one length this order
is total and transitive, and sorting is stable; so the rows that a condition keeps of sorted rows are
sorted as they would be alone.

* `compareKeys_swap`, `compareKeys_trans` — the order of keys;
* `mergeSort_filter` — a part of what is sorted;
* `sortKeys_map_snd` — the places of sorted keys, by the rows that the keys belong to;
* `ordered_sortPlaces`, `level_sortPlaces` — sorted rows are in order, and stay in theirs where it does not
  tell them apart.
-/
import Mathlib.Data.List.Sort
import TableQuery.Context.Sorting
import TableQuery.Proofs.ValueOrder

namespace TableQuery

/-! ### Keys -/

/-- The order of values in a direction. -/
def Direction.order : Direction → Value → Value → Ordering
  | .ascending, x, y => x.sortCompare y
  | .descending, x, y => y.sortCompare x

instance (d : Direction) : Std.TransCmp d.order := by
  cases d with
  | ascending => exact inferInstanceAs (Std.TransCmp Value.sortCompare)
  | descending => exact inferInstanceAs (Std.TransCmp fun x y => Value.sortCompare y x)

theorem compareKeys_cons (d : Direction) (ds : List Direction) (x y : Value) (xs ys : List Value) :
    compareKeys (d :: ds) (x :: xs) (y :: ys) = (d.order x y).then (compareKeys ds xs ys) := by
  cases d <;> rfl

theorem compareKeys_swap : ∀ (ds : List Direction) (xs ys : List Value),
    compareKeys ds xs ys = (compareKeys ds ys xs).swap
  | [], _, _ => by simp [compareKeys]
  | _ :: _, [], _ => by simp [compareKeys]
  | _ :: _, _ :: _, [] => by simp [compareKeys]
  | d :: ds, x :: xs, y :: ys => by
    have hswap : d.order x y = (d.order y x).swap := Std.OrientedCmp.eq_swap
    rw [compareKeys_cons, compareKeys_cons, compareKeys_swap ds xs ys, hswap, Ordering.swap_then]

theorem compareKeys_self (ds : List Direction) (xs : List Value) : compareKeys ds xs xs = .eq := by
  have hswap := compareKeys_swap ds xs xs
  generalize compareKeys ds xs xs = o at hswap ⊢
  cases o <;> simp_all

/-- Keys that have a value for every direction are in a transitive order. -/
theorem compareKeys_trans : ∀ {ds : List Direction} {xs ys zs : List Value},
    xs.length = ds.length → ys.length = ds.length → zs.length = ds.length →
    compareKeys ds xs ys ≠ .gt → compareKeys ds ys zs ≠ .gt → compareKeys ds xs zs ≠ .gt
  | [], _, _, _, _, _, _, _, _ => by simp [compareKeys]
  | _ :: _, [], _, _, hx, _, _, _, _ => by simp at hx
  | _ :: _, _ :: _, [], _, _, hy, _, _, _ => by simp at hy
  | _ :: _, _ :: _, _ :: _, [], _, _, hz, _, _ => by simp at hz
  | d :: ds, x :: xs, y :: ys, z :: zs, hx, hy, hz, hxy, hyz => by
    rw [compareKeys_cons] at hxy hyz ⊢
    have hrest : compareKeys ds xs ys ≠ .gt → compareKeys ds ys zs ≠ .gt →
        compareKeys ds xs zs ≠ .gt :=
      compareKeys_trans (by simpa using hx) (by simpa using hy) (by simpa using hz)
    have hfirst : ∀ {a b : Value} {o : Ordering}, (d.order a b).then o ≠ .gt → d.order a b ≠ .gt := by
      intro a b o ho hgt
      rw [hgt] at ho
      exact ho rfl
    -- the first positions decide unless both are level
    rw [compare_eq_then (hfirst hxy) (hfirst hyz)]
    cases h : d.order x y with
    | gt => exact absurd h (hfirst hxy)
    | lt => simp
    | eq =>
      cases h' : d.order y z with
      | gt => exact absurd h' (hfirst hyz)
      | lt => simp
      | eq =>
        rw [h] at hxy
        rw [h'] at hyz
        exact hrest hxy hyz

/-! ### Stability -/

section MergeSort

variable {α : Type} {le : α → α → Bool}

theorem takeWhile_append_eq_left {p : α → Bool} {l₁ l₂ : List α} (h₁ : ∀ a ∈ l₁, p a = true)
    (h₂ : ∀ a ∈ l₂, p a = false) : (l₁ ++ l₂).takeWhile p = l₁ := by
  rw [List.takeWhile_append_of_pos h₁]
  cases l₂ with
  | nil => simp
  | cons a l₂ => simp [h₂ a List.mem_cons_self]

/-- What a condition keeps of a sorted list is sorted as it would be alone. -/
theorem mergeSort_filter (trans : ∀ a b c, le a b = true → le b c = true → le a c = true)
    (total : ∀ a b, (le a b || le b a) = true) (p : α → Bool) (l : List α) :
    (l.filter p).mergeSort le = (l.mergeSort le).filter p := by
  induction l with
  | nil => simp
  | cons a l ih =>
    obtain ⟨l₁, l₂, hsorted, hrest, hl₁⟩ := List.mergeSort_cons trans total a l
    rw [hrest, List.filter_append] at ih
    cases hp : p a with
    | false =>
      rw [List.filter_cons_of_neg (by simp [hp]), ih, hsorted]
      simp [List.filter_append, hp]
    | true =>
      obtain ⟨m₁, m₂, hsorted', hrest', hm₁⟩ := List.mergeSort_cons trans total a (l.filter p)
      have hbehind : ∀ {k k' m : List α}, k.mergeSort le = k' ++ a :: m → ∀ b ∈ m, le a b = true := by
        intro k k' m h b hb
        have hpairwise := List.pairwise_mergeSort trans total k
        rw [h, List.pairwise_append, List.pairwise_cons] at hpairwise
        exact hpairwise.2.1.1 b hb
      -- the item splits both lists where what stands behind it begins
      have hparts : m₁ = l₁.filter p ∧ m₂ = l₂.filter p := by
        have heq : m₁ ++ m₂ = l₁.filter p ++ l₂.filter p := hrest'.symm.trans ih
        have hleft : (m₁ ++ m₂).takeWhile (fun b => !le a b) = m₁ :=
          takeWhile_append_eq_left hm₁ fun b hb => by simp [hbehind hsorted' b hb]
        have hright : (l₁.filter p ++ l₂.filter p).takeWhile (fun b => !le a b) = l₁.filter p :=
          takeWhile_append_eq_left (fun b hb => hl₁ b (List.mem_filter.mp hb).1)
            fun b hb => by simp [hbehind hsorted b (List.mem_filter.mp hb).1]
        have hfirst : m₁ = l₁.filter p := by rw [← hleft, heq, hright]
        rw [hfirst] at heq
        exact ⟨hfirst, List.append_cancel_left heq⟩
      rw [List.filter_cons_of_pos hp, hsorted', hsorted, hparts.1, hparts.2]
      simp [List.filter_append, hp]

end MergeSort

/-! ### Sorted rows -/

/-- Rows in the order of their keys. -/
def sortPlaces (directions : List Direction) (key : Nat → List Value) (places : List Nat) :
    List Nat :=
  places.mergeSort fun i j => compareKeys directions (key i) (key j) != .gt

/-- Sorting the keys of rows puts the rows in order. -/
theorem sortKeys_map_snd (directions : List Direction) (key : Nat → List Value)
    (places : List Nat) :
    ((sortKeys directions (places.map key)).map Prod.snd).map (fun k => places.getD k 0) =
      sortPlaces directions key places := by
  have hkey : ∀ a ∈ (places.map key).zipIdx, a.1 = key (places.getD a.2 0) := by
    rintro ⟨x, k⟩ hk
    have hx := List.mem_zipIdx_iff_getElem?.mp hk
    rw [List.getElem?_map] at hx
    obtain ⟨i, hi, rfl⟩ := Option.map_eq_some_iff.mp hx
    simp [hi]
  have hplaces : ((places.map key).zipIdx.map Prod.snd).map (fun k => places.getD k 0) = places := by
    refine List.ext_getElem (by simp) fun k _ hk => ?_
    simp [hk]
  rw [sortKeys, sortPlaces, List.map_map]
  rw [List.map_mergeSort (s := fun i j => compareKeys directions (key i) (key j) != .gt)]
  · rw [← List.map_map, hplaces]
  · intro a ha b hb
    rw [hkey a ha, hkey b hb]
    rfl

theorem sortPlaces_perm (directions : List Direction) (key : Nat → List Value) (places : List Nat) :
    (sortPlaces directions key places).Perm places := List.mergeSort_perm _ _

/-- Without directions rows stay where they are. -/
theorem sortPlaces_nil (key : Nat → List Value) (places : List Nat) :
    sortPlaces [] key places = places := by
  refine List.mergeSort_of_pairwise (List.pairwise_of_forall fun i j => ?_)
  rw [compareKeys]
  · rfl
  all_goals simp

section Keys

variable {directions : List Direction} {key : Nat → List Value}
  (hkey : ∀ i, (key i).length = directions.length)
include hkey

theorem sortPlaces_trans (i j k : Nat) (hij : (compareKeys directions (key i) (key j) != .gt) = true)
    (hjk : (compareKeys directions (key j) (key k) != .gt) = true) :
    (compareKeys directions (key i) (key k) != .gt) = true := by
  rw [bne_iff_ne] at hij hjk ⊢
  exact compareKeys_trans (hkey i) (hkey j) (hkey k) hij hjk

omit hkey in
theorem sortPlaces_total (i j : Nat) : (compareKeys directions (key i) (key j) != .gt ||
    compareKeys directions (key j) (key i) != .gt) = true := by
  rw [compareKeys_swap directions (key j) (key i)]
  cases compareKeys directions (key i) (key j) <;> rfl

/-- Rows that are left out do not change the order of the others. -/
theorem sortPlaces_filter (p : Nat → Bool) (places : List Nat) :
    sortPlaces directions key (places.filter p) = (sortPlaces directions key places).filter p :=
  mergeSort_filter (sortPlaces_trans hkey) sortPlaces_total p places

/-- No sorted row has a key behind that of a later one. -/
theorem ordered_sortPlaces (places : List Nat) : (sortPlaces directions key places).Pairwise
    fun i j => compareKeys directions (key i) (key j) ≠ .gt := by
  refine (List.pairwise_mergeSort (sortPlaces_trans hkey) sortPlaces_total places).imp ?_
  intro i j hij
  exact bne_iff_ne.mp hij

/-- Rows whose keys are level stay in their order. -/
theorem level_sortPlaces (n : Nat) : (sortPlaces directions key (List.range n)).Pairwise
    fun i j => compareKeys directions (key i) (key j) = .eq → i < j := by
  refine List.pairwise_iff_forall_sublist.mpr fun {i j} hsub hlevel => ?_
  let level (k : Nat) : Bool := compareKeys directions (key k) (key j) == .eq
  -- rows that are level with one of them are level with one another, and so they are left where they are
  have hleft : sortPlaces directions key ((List.range n).filter level) = (List.range n).filter level := by
    refine List.mergeSort_of_pairwise (List.pairwise_of_forall_mem_list fun a ha b hb => ?_)
    have haj : compareKeys directions (key a) (key j) = .eq := eq_of_beq (List.mem_filter.mp ha).2
    have hbj : compareKeys directions (key b) (key j) = .eq := eq_of_beq (List.mem_filter.mp hb).2
    have hjb : compareKeys directions (key j) (key b) = .eq := by
      rw [compareKeys_swap, hbj]
      rfl
    exact sortPlaces_trans hkey a j b (by rw [haj]; rfl) (by rw [hjb]; rfl)
  rw [sortPlaces_filter hkey] at hleft
  have hboth : [i, j].Sublist ((List.range n).filter level) := by
    have hfilter := hsub.filter level
    rw [hleft] at hfilter
    simpa [level, hlevel, compareKeys_self] using hfilter
  have hascending := List.pairwise_lt_range (n := n) |>.filter level
  exact List.pairwise_iff_forall_sublist.mp hascending hboth

end Keys

end TableQuery
