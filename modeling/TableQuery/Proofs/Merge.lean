/-
The candidates that merging finds, and the pairs that are left of them.

`joinedPairs` are the pairs of a left join as they are meant: for every row on the left the rows on
the right for which the condition is true, or nothing.

* `mergeKeys_eq_flatMap` — on sorted keys merging finds, for every row on the left, the rows with an
  equal key;
* `outerPairs_flatMap` — candidates that stand together row by row are decided row by row;
* `outerPairs_allPairs`, `outerPairs_mergeKeys_perm` — either way the pairs are those of the join.
-/
import Mathlib.Data.List.Perm.Basic
import Mathlib.Data.List.SplitBy
import Mathlib.Data.List.TakeWhile
import TableQuery.Context.Join
import TableQuery.Proofs.ValueOrder

namespace TableQuery

/-! ### The pairs of a left join -/

/-- A row on the left with its rows on the right, or with nothing if there are none. -/
def joinedRow (i : Nat) (found : List Nat) : List RowPair :=
  if found.isEmpty then [(i, none)] else found.map fun j => (i, some j)

/-- The pairs of a left join of `left` and `right` rows on a condition. -/
def joinedPairs (left right : Nat) (truth : Nat → Nat → Bool) : List RowPair :=
  (List.range left).flatMap fun i => joinedRow i ((List.range right).filter (truth i))

theorem joinedRow_perm (i : Nat) {found other : List Nat} (h : found.Perm other) :
    (joinedRow i found).Perm (joinedRow i other) := by
  rw [joinedRow, joinedRow]
  cases found with
  | nil => rw [h.nil_eq]
  | cons j found =>
    have hne : other ≠ [] := fun he => by simpa [he] using h.length_eq
    rw [List.isEmpty_eq_false_iff.mpr hne]
    exact h.map fun j => (i, some j)

theorem joinedPairs_eq_map (left right : Nat) (truth : Nat → Nat → Bool)
    (h : left = 0 ∨ right = 0) :
    joinedPairs left right truth = (List.range left).map fun i => (i, none) := by
  obtain rfl | rfl := h
  · rfl
  · rw [joinedPairs, List.range_zero]
    exact List.map_eq_flatMap.symm

/-! ### Sorted keys -/

/-- No key stands behind a greater one. -/
def SortedKeys (keys : List RowKey) : Prop := keys.Pairwise fun a b => a.1.sortCompare b.1 ≠ .gt

theorem sortedKeys_sortRowKeys (keys : List RowKey) : SortedKeys (sortRowKeys keys) := by
  have hle : (sortRowKeys keys).Pairwise fun a b => (a.1.sortCompare b.1 != .gt) = true :=
    List.pairwise_mergeSort (fun a b c hab hbc => ?_) (fun a b => ?_) keys
  · exact hle.imp fun hab => by simpa using hab
  · have hab' : (a.1.sortCompare b.1).isLE := by simpa [Ordering.isLE_iff_ne_gt] using hab
    have hbc' : (b.1.sortCompare c.1).isLE := by simpa [Ordering.isLE_iff_ne_gt] using hbc
    simpa [Ordering.isLE_iff_ne_gt] using Std.TransCmp.isLE_trans hab' hbc'
  · rw [Value.sortCompare_swap]
    cases b.1.sortCompare a.1 <;> simp

theorem sortRowKeys_of_sorted {keys : List RowKey} (h : SortedKeys keys) :
    sortRowKeys keys = keys :=
  List.mergeSort_of_pairwise (h.imp fun hab => by simpa using hab)

/-- The rows with the key of a row on the left. Null is equal to nothing. -/
def RowKey.candidates (right : List RowKey) (l : RowKey) : List RowPair :=
  joinedRow l.2 ((right.filter fun r => !l.1.isNull && r.sortsAs l.1).map Prod.snd)

/-- Rows with other keys make no difference to the candidates. -/
theorem RowKey.candidates_append_of_ne {l : RowKey} (run rest : List RowKey)
    (h : ∀ r ∈ run, (!l.1.isNull && r.sortsAs l.1) = false) :
    l.candidates (run ++ rest) = l.candidates rest := by
  have hnone : run.filter (fun r => !l.1.isNull && r.sortsAs l.1) = [] :=
    List.filter_eq_nil_iff.mpr fun r hr => by simp [h r hr]
  rw [candidates, candidates, List.filter_append, hnone, List.nil_append]

/-- The candidates of a row whose key is level with a run, before greater keys. -/
theorem RowKey.candidates_of_run {l : RowKey} {y : Value} {run rest : List RowKey}
    (hnull : l.1.isNull = false) (hl : l.1.sortCompare y = .eq) (hne : run ≠ [])
    (hrun : ∀ r ∈ run, r.1.sortCompare y = .eq) (hrest : ∀ r ∈ rest, y.sortCompare r.1 = .lt) :
    l.candidates (run ++ rest) = run.map fun r => (l.2, some r.2) := by
  have hall : run.filter (fun r => !l.1.isNull && r.sortsAs l.1) = run := by
    refine List.filter_eq_self.mpr fun r hr => ?_
    have heq : r.1.sortCompare l.1 = .eq :=
      Std.TransCmp.eq_trans (hrun r hr) (Std.OrientedCmp.eq_symm hl)
    simp [hnull, sortsAs, heq]
  have hnone : rest.filter (fun r => !l.1.isNull && r.sortsAs l.1) = [] := by
    refine List.filter_eq_nil_iff.mpr fun r hr => ?_
    have hgt : r.1.sortCompare l.1 = .gt :=
      Std.OrientedCmp.gt_of_lt (Std.TransCmp.lt_of_eq_of_lt hl (hrest r hr))
    simp [sortsAs, hgt]
  have hempty : (run.map Prod.snd).isEmpty = false := by simpa using hne
  rw [candidates, List.filter_append, hall, hnone, List.append_nil, joinedRow, hempty]
  simp

/-- A row has no candidates among keys that are all greater than its own. -/
theorem RowKey.candidates_of_lt {l : RowKey} {right : List RowKey}
    (h : ∀ r ∈ right, l.1.sortCompare r.1 = .lt) : l.candidates right = [(l.2, none)] := by
  have hnone : right.filter (fun r => !l.1.isNull && r.sortsAs l.1) = [] := by
    refine List.filter_eq_nil_iff.mpr fun r hr => ?_
    have hgt : r.1.sortCompare l.1 = .gt := by
      rw [Value.sortCompare_swap, h r hr]
      rfl
    simp [sortsAs, hgt]
  rw [candidates, hnone]
  rfl

/-- In sorted keys those level with the first of them stand before all others, which are greater. -/
theorem SortedKeys.dropWhile {x : Value} {i : Nat} {keys : List RowKey}
    (h : SortedKeys ((x, i) :: keys)) :
    SortedKeys (keys.dropWhile (RowKey.sortsAs x)) ∧
      ∀ k ∈ keys.dropWhile (RowKey.sortsAs x), x.sortCompare k.1 = .lt := by
  obtain ⟨hx, hkeys⟩ := List.pairwise_cons.mp h
  have hsorted := hkeys.sublist (List.dropWhile_sublist (RowKey.sortsAs x))
  refine ⟨hsorted, fun k hk => ?_⟩
  have hsub := (List.dropWhile_sublist (RowKey.sortsAs x) (l := keys)).subset
  cases hd : keys.dropWhile (RowKey.sortsAs x) with
  | nil => simp [hd] at hk
  | cons first rest =>
    rw [hd] at hk hsorted hsub
    have hfirst : x.sortCompare first.1 = .lt := by
      have hne : ¬ RowKey.sortsAs x first = true := by
        have hhead := List.head_dropWhile_not (RowKey.sortsAs x) (l := keys) (by simp [hd])
        simpa [hd] using hhead
      have hle := hx first (hsub List.mem_cons_self)
      cases hc : x.sortCompare first.1 with
      | lt => rfl
      | gt => exact absurd hc hle
      | eq =>
        refine absurd ?_ hne
        rw [RowKey.sortsAs, Std.OrientedCmp.eq_symm hc]
        rfl
    obtain rfl | hk := List.mem_cons.mp hk
    · exact hfirst
    · have hle := (List.pairwise_cons.mp hsorted).1 k hk
      exact Std.TransCmp.lt_of_lt_of_isLE hfirst (Ordering.isLE_iff_ne_gt.mpr hle)

/-- The run that a key begins is level with it. -/
theorem RowKey.sortCompare_of_mem_run {x : Value} {i : Nat} {keys : List RowKey} {k : RowKey}
    (h : k ∈ (x, i) :: keys.takeWhile (RowKey.sortsAs x)) : k.1.sortCompare x = .eq := by
  obtain rfl | h := List.mem_cons.mp h
  · exact Std.ReflCmp.compare_self
  · have hsorts : RowKey.sortsAs x k = true := List.mem_takeWhile_imp h
    exact eq_of_beq hsorts

/-- Keys on the right that are level with none on the left make no difference. -/
theorem flatMap_candidates_of_ne {left : List RowKey} (run rest : List RowKey)
    (h : ∀ l ∈ left, ∀ r ∈ run, (!l.1.isNull && r.sortsAs l.1) = false) :
    left.flatMap (RowKey.candidates (run ++ rest)) = left.flatMap (RowKey.candidates rest) :=
  List.flatMap_congr fun l hl => RowKey.candidates_append_of_ne run rest (h l hl)

/-- Rows whose keys are level with a run are paired with all of the run. -/
theorem flatMap_candidates_of_run {left run rest : List RowKey} {y : Value} (hnull : y.isNull = false)
    (hleft : ∀ l ∈ left, l.1.sortCompare y = .eq) (hne : run ≠ [])
    (hrun : ∀ r ∈ run, r.1.sortCompare y = .eq) (hrest : ∀ r ∈ rest, y.sortCompare r.1 = .lt) :
    left.flatMap (RowKey.candidates (run ++ rest)) =
      left.flatMap fun l => run.map fun r => (l.2, some r.2) := by
  refine List.flatMap_congr fun l hl => ?_
  have hlnull : l.1.isNull = false := (Value.isNull_eq_of_sortCompare (hleft l hl)).trans hnull
  exact RowKey.candidates_of_run hlnull (hleft l hl) hne hrun hrest

theorem mergeKeys_eq_flatMap {left right : List RowKey} (hl : SortedKeys left)
    (hr : SortedKeys right) : mergeKeys left right = left.flatMap (RowKey.candidates right) := by
  induction left, right using mergeKeys.induct with
  | case1 right => rw [mergeKeys]; rfl
  | case2 x i left ih =>
    rw [mergeKeys, ih (List.pairwise_cons.mp hl).2 hr]
    rfl
  | case3 x i left y j right hnull ih =>
    -- a row without a key on the right is no candidate of any row
    rw [mergeKeys, if_pos hnull, ih hl (List.pairwise_cons.mp hr).2]
    refine (flatMap_candidates_of_ne [(y, j)] right fun l _ r hr' => ?_).symm
    rw [List.mem_singleton.mp hr']
    have hy : y.isNull = true := (Bool.and_eq_true _ _ ▸ hnull).2
    cases hl : l.1.isNull with
    | true => rfl
    | false =>
      have hne : y.sortCompare l.1 ≠ .eq := fun h => by
        rw [← Value.isNull_eq_of_sortCompare h, hy] at hl
        cases hl
      simp [RowKey.sortsAs, hne]
  | case4 x i left y j right hnull hlt ih =>
    have hstep : mergeKeys ((x, i) :: left) ((y, j) :: right) =
        (i, none) :: mergeKeys left ((y, j) :: right) := by
      rw [mergeKeys, if_neg hnull]
      simp only [hlt]
    have hall : ∀ r ∈ (y, j) :: right, x.sortCompare r.1 = .lt := by
      intro r hr'
      obtain rfl | hr' := List.mem_cons.mp hr'
      · exact hlt
      · have hle := (List.pairwise_cons.mp hr).1 r hr'
        exact Std.TransCmp.lt_of_lt_of_isLE hlt (Ordering.isLE_iff_ne_gt.mpr hle)
    have hfirst : RowKey.candidates ((y, j) :: right) (x, i) = [(i, none)] :=
      RowKey.candidates_of_lt hall
    rw [hstep, ih (List.pairwise_cons.mp hl).2 hr, List.flatMap_cons, hfirst]
    rfl
  | case5 x i left y j right hnull hgt ih =>
    have hstep : mergeKeys ((x, i) :: left) ((y, j) :: right) = mergeKeys ((x, i) :: left) right := by
      rw [mergeKeys, if_neg hnull]
      simp only [hgt]
    have hylt : y.sortCompare x = .lt := Std.OrientedCmp.lt_of_gt hgt
    rw [hstep, ih hl (List.pairwise_cons.mp hr).2]
    refine (flatMap_candidates_of_ne [(y, j)] right fun l hl' r hr' => ?_).symm
    rw [List.mem_singleton.mp hr']
    have hle : (x.sortCompare l.1).isLE := by
      obtain rfl | hl' := List.mem_cons.mp hl'
      · exact Ordering.isLE_of_eq_eq Std.ReflCmp.compare_self
      · exact Ordering.isLE_iff_ne_gt.mpr ((List.pairwise_cons.mp hl).1 l hl')
    have hy : y.sortCompare l.1 = .lt := Std.TransCmp.lt_of_lt_of_isLE hylt hle
    simp [RowKey.sortsAs, hy]
  | case6 x i left y j right hnull heq ih =>
    have hleft := hl.dropWhile
    have hright := hr.dropWhile
    have hynull : y.isNull = false := by
      rw [Value.isNull_eq_of_sortCompare heq, Bool.and_self] at hnull
      simpa using hnull
    have hstep : mergeKeys ((x, i) :: left) ((y, j) :: right) =
        (((x, i) :: left.takeWhile (RowKey.sortsAs x)).flatMap fun l =>
          ((y, j) :: right.takeWhile (RowKey.sortsAs y)).map fun r => (l.2, some r.2)) ++
        mergeKeys (left.dropWhile (RowKey.sortsAs x)) (right.dropWhile (RowKey.sortsAs y)) := by
      rw [mergeKeys, if_neg hnull]
      simp only [heq]
    -- both sides begin with a run of level keys, and greater keys follow
    have hsplit : ∀ (k : RowKey) (keys : List RowKey), k :: keys =
        (k :: keys.takeWhile (RowKey.sortsAs k.1)) ++ keys.dropWhile (RowKey.sortsAs k.1) := by
      intro k keys
      rw [List.cons_append, List.takeWhile_append_dropWhile]
    have hleftRun : ∀ l ∈ (x, i) :: left.takeWhile (RowKey.sortsAs x), l.1.sortCompare y = .eq :=
      fun l hl' => Std.TransCmp.eq_trans (RowKey.sortCompare_of_mem_run hl') heq
    have hrightRun : ∀ r ∈ (y, j) :: right.takeWhile (RowKey.sortsAs y), r.1.sortCompare y = .eq :=
      fun r hr' => RowKey.sortCompare_of_mem_run hr'
    have hrun := flatMap_candidates_of_run hynull hleftRun (List.cons_ne_nil _ _) hrightRun hright.2
    have hne : ∀ l ∈ left.dropWhile (RowKey.sortsAs x),
        ∀ r ∈ (y, j) :: right.takeWhile (RowKey.sortsAs y),
          (!l.1.isNull && RowKey.sortsAs l.1 r) = false := by
      intro l hl' r hr'
      have hrx : r.1.sortCompare x = .eq :=
        Std.TransCmp.eq_trans (hrightRun r hr') (Std.OrientedCmp.eq_symm heq)
      have hlt : r.1.sortCompare l.1 = .lt := Std.TransCmp.lt_of_eq_of_lt hrx (hleft.2 l hl')
      simp [RowKey.sortsAs, hlt]
    have hrest := flatMap_candidates_of_ne ((y, j) :: right.takeWhile (RowKey.sortsAs y))
      (right.dropWhile (RowKey.sortsAs y)) hne
    rw [hstep, ih hleft.1 hright.1, ← hrun, ← hrest, ← hsplit (y, j) right, ← List.flatMap_append,
      ← hsplit (x, i) left]

/-! ### Deciding candidates -/

/-- A pair with the truth of the condition; a pair with nothing does not hold. -/
def tested (truth : Nat → Nat → Bool) (p : RowPair) : RowPair × Bool := (p, p.2.any (truth p.1))

theorem joinedRow_ne_nil (i : Nat) (found : List Nat) : joinedRow i found ≠ [] := by
  cases found <;> simp [joinedRow]

theorem fst_of_mem_joinedRow {i : Nat} {found : List Nat} {p : RowPair}
    (h : p ∈ joinedRow i found) : p.1 = i := by
  rw [joinedRow] at h
  split at h
  · rw [List.mem_singleton.mp h]
  · obtain ⟨j, -, rfl⟩ := List.mem_map.mp h
    rfl

/-- Of the candidates of a row those that hold are left, or a pair with nothing. -/
theorem pairsOfRow_joinedRow (truth : Nat → Nat → Bool) (i : Nat) (found : List Nat) :
    pairsOfRow ((joinedRow i found).map (tested truth)) = joinedRow i (found.filter (truth i)) := by
  cases found with
  | nil => rfl
  | cons j found =>
    have hheld : ((((joinedRow i (j :: found)).map (tested truth)).filter Prod.snd).map Prod.fst) =
        ((j :: found).filter (truth i)).map fun j => (i, some j) := by
      have hrow : joinedRow i (j :: found) = (j :: found).map fun j => (i, some j) := rfl
      rw [hrow, List.map_map, List.filter_map, List.map_map]
      rfl
    rw [pairsOfRow, hheld]
    cases hf : (j :: found).filter (truth i) with
    | nil => rfl
    | cons k rest => rfl

/-- Splitting a list wherever the key changes gives back its blocks. -/
theorem splitBy_flatMap {α β : Type} (key : α → Nat) (block : β → List α) (id : β → Nat) :
    ∀ (bs : List β), (∀ b ∈ bs, block b ≠ []) → (∀ b ∈ bs, ∀ a ∈ block b, key a = id b) →
    (bs.map id).Nodup → (bs.flatMap block).splitBy (fun a b => key a == key b) = bs.map block
  | [], _, _, _ => rfl
  | b :: bs, hne, hkey, hnodup => by
    obtain ⟨hb, hbs⟩ := List.nodup_cons.mp hnodup
    have ih := splitBy_flatMap key block id bs (fun b' h => hne b' (List.mem_cons_of_mem b h))
      (fun b' h => hkey b' (List.mem_cons_of_mem b h)) hbs
    have hfirst : (block b).splitBy (fun a b => key a == key b) = [block b] := by
      refine List.splitBy_of_isChain (hne b List.mem_cons_self) (List.Pairwise.isChain ?_)
      refine List.pairwise_of_forall_mem_list fun x hx y hy => ?_
      have hmem : b ∈ b :: bs := List.mem_cons_self
      simp [hkey b hmem x hx, hkey b hmem y hy]
    rw [List.flatMap_cons, List.splitBy_append ?_, hfirst, ih]
    · rfl
    · intro x hx y hy
      have hxb := hkey b List.mem_cons_self x (List.mem_of_getLast? hx)
      obtain ⟨b', hb', hy'⟩ := List.mem_flatMap.mp (List.mem_of_head? hy)
      have hyb := hkey b' (List.mem_cons_of_mem b hb') y hy'
      have hne' : id b ≠ id b' := fun he => hb (he ▸ List.mem_map_of_mem hb')
      simpa [hxb, hyb] using hne'

/-- Candidates that stand together row by row are decided row by row. -/
theorem outerPairs_flatMap {β : Type} (truth : Nat → Nat → Bool) {rows : List β} (id : β → Nat)
    (found : β → List Nat) (hrows : (rows.map id).Nodup) :
    outerPairs ((rows.flatMap fun b => joinedRow (id b) (found b)).map (tested truth)) =
      rows.flatMap fun b => joinedRow (id b) ((found b).filter (truth (id b))) := by
  have hsplit := splitBy_flatMap (fun c : RowPair × Bool => c.1.1)
    (fun b => (joinedRow (id b) (found b)).map (tested truth)) id rows
    (fun b _ h => joinedRow_ne_nil _ _ (List.map_eq_nil_iff.mp h))
    (fun b _ a ha => by
      obtain ⟨p, hp, rfl⟩ := List.mem_map.mp ha
      exact fst_of_mem_joinedRow hp) hrows
  rw [outerPairs, List.map_flatMap, hsplit, List.flatMap_map]
  exact List.flatMap_congr fun b _ => pairsOfRow_joinedRow truth (id b) (found b)

theorem outerPairs_allPairs (truth : Nat → Nat → Bool) (left : Nat) {right : Nat}
    (hright : 0 < right) :
    outerPairs ((allPairs left right).map (tested truth)) = joinedPairs left right truth := by
  have hall : allPairs left right =
      (List.range left).flatMap fun i => joinedRow i (List.range right) := by
    refine List.flatMap_congr fun i _ => ?_
    rw [joinedRow, List.isEmpty_eq_false_iff.mpr (by simp; omega)]
    rfl
  rw [hall, outerPairs_flatMap truth (fun i => i) (fun _ => List.range right)]
  · rfl
  · simpa using List.nodup_range

/-- The keys of the rows up to a count. -/
def rowKeys (key : Nat → Value) (size : Nat) : List RowKey :=
  (List.range size).map fun i => (key i, i)

theorem sortRowKeys_perm (keys : List RowKey) : (sortRowKeys keys).Perm keys :=
  List.mergeSort_perm _ _

/-- When the condition is only true of equal keys, merging finds all rows for which it is. -/
theorem candidates_filter_perm {key : Nat → Value} {right : Nat} {x : Value} {truth : Nat → Bool}
    (h : ∀ j < right, truth j = true → x.equal (key j) = true) :
    ((((sortRowKeys (rowKeys key right)).filter
      fun r => !x.isNull && r.sortsAs x).map Prod.snd).filter truth).Perm
      ((List.range right).filter truth) := by
  have hperm := (((sortRowKeys_perm (rowKeys key right)).filter
    fun r => !x.isNull && r.sortsAs x).map Prod.snd).filter truth
  refine hperm.trans (List.Perm.of_eq ?_)
  have hkeys : ((rowKeys key right).filter fun r => !x.isNull && r.sortsAs x).map Prod.snd =
      (List.range right).filter fun j => !x.isNull && RowKey.sortsAs x (key j, j) := by
    rw [rowKeys, List.filter_map, List.map_map]
    exact List.map_id' _
  rw [hkeys, List.filter_filter]
  refine List.filter_congr fun j hj => ?_
  cases ht : truth j with
  | false => simp
  | true =>
    have heq := h j (List.mem_range.mp hj) ht
    have hsorts := Std.OrientedCmp.eq_symm (Value.sortCompare_of_equal heq)
    have hnull : x.isNull = false := by
      cases x with
      | null => rw [Value.equal_null_left] at heq; cases heq
      | _ => rfl
    simp [hnull, RowKey.sortsAs, hsorts]

theorem outerPairs_mergeKeys_perm {truth : Nat → Nat → Bool} {left right : Nat}
    {key key' : Nat → Value}
    (h : ∀ i < left, ∀ j < right, truth i j = true → (key i).equal (key' j) = true) :
    (outerPairs ((mergeKeys (sortRowKeys (rowKeys key left))
      (sortRowKeys (rowKeys key' right))).map (tested truth))).Perm
      (joinedPairs left right truth) := by
  have hmem : ∀ l ∈ sortRowKeys (rowKeys key left), l.2 < left ∧ l.1 = key l.2 := by
    intro l hl
    obtain ⟨i, hi, rfl⟩ := List.mem_map.mp ((sortRowKeys_perm _).subset hl)
    exact ⟨List.mem_range.mp hi, rfl⟩
  have hnodup : ((sortRowKeys (rowKeys key left)).map Prod.snd).Nodup := by
    refine ((sortRowKeys_perm _).map Prod.snd).nodup_iff.mpr ?_
    rw [rowKeys, List.map_map]
    exact (List.map_id' _).symm ▸ List.nodup_range
  rw [mergeKeys_eq_flatMap (sortedKeys_sortRowKeys _) (sortedKeys_sortRowKeys _)]
  -- the candidates of a row on the left stand together, so every row is decided alone
  have houter := outerPairs_flatMap truth Prod.snd (fun l : RowKey =>
    ((sortRowKeys (rowKeys key' right)).filter fun r => !l.1.isNull && r.sortsAs l.1).map Prod.snd)
    hnodup
  -- those candidates that hold are all rows that hold, though in another order
  have hdecided : ((sortRowKeys (rowKeys key left)).flatMap fun l => joinedRow l.2
      ((((sortRowKeys (rowKeys key' right)).filter fun r => !l.1.isNull && r.sortsAs l.1).map
        Prod.snd).filter (truth l.2))).Perm
      ((sortRowKeys (rowKeys key left)).flatMap fun l =>
        joinedRow l.2 ((List.range right).filter (truth l.2))) := by
    refine List.Perm.flatMap_left _ fun l hl => joinedRow_perm l.2 ?_
    obtain ⟨hlt, hkey⟩ := hmem l hl
    exact candidates_filter_perm fun j hj ht => hkey ▸ h l.2 hlt j hj ht
  have hunsorted := (sortRowKeys_perm (rowKeys key left)).flatMap_right fun l =>
    joinedRow l.2 ((List.range right).filter (truth l.2))
  have hrows : ((rowKeys key left).flatMap fun l =>
      joinedRow l.2 ((List.range right).filter (truth l.2))) = joinedPairs left right truth := by
    rw [rowKeys, List.flatMap_map]
    rfl
  exact houter ▸ hdecided.trans (hrows ▸ hunsorted)

/-! ### Rows on the left -/

theorem mem_allPairs {left right : Nat} {p : RowPair} (h : p ∈ allPairs left right) :
    p.1 < left ∧ ∀ j ∈ p.2, j < right := by
  obtain ⟨i, hi, hp⟩ := List.mem_flatMap.mp h
  obtain ⟨j, hj, rfl⟩ := List.mem_map.mp hp
  refine ⟨List.mem_range.mp hi, fun k hk => ?_⟩
  obtain rfl : j = k := Option.mem_some_iff.mp hk
  exact List.mem_range.mp hj

theorem exists_of_mem_mergeKeys {left right : List RowKey} {p : RowPair}
    (h : p ∈ mergeKeys (sortRowKeys left) (sortRowKeys right)) : ∃ l ∈ left, l.2 = p.1 := by
  rw [mergeKeys_eq_flatMap (sortedKeys_sortRowKeys _) (sortedKeys_sortRowKeys _)] at h
  obtain ⟨l, hl, hp⟩ := List.mem_flatMap.mp h
  exact ⟨l, (sortRowKeys_perm left).subset hl, (fst_of_mem_joinedRow hp).symm⟩

theorem exists_of_mem_pairsOfRow {candidates : List (RowPair × Bool)} {p : RowPair}
    (h : p ∈ pairsOfRow candidates) : ∃ c ∈ candidates, c.1.1 = p.1 := by
  rw [pairsOfRow] at h
  split at h
  · obtain ⟨c, hc, rfl⟩ := Option.map_eq_some_iff.mp (Option.mem_toList.mp h)
    exact ⟨c, List.mem_of_head? hc, rfl⟩
  · obtain ⟨c, hc, rfl⟩ := List.mem_map.mp h
    exact ⟨c, (List.mem_filter.mp hc).1, rfl⟩

/-- Every pair that is left comes from a candidate with the same row on the left. -/
theorem exists_of_mem_outerPairs {candidates : List (RowPair × Bool)} {p : RowPair}
    (h : p ∈ outerPairs candidates) : ∃ c ∈ candidates, c.1.1 = p.1 := by
  obtain ⟨block, hblock, hp⟩ := List.mem_flatMap.mp h
  obtain ⟨c, hc, hfst⟩ := exists_of_mem_pairsOfRow hp
  have hflat : c ∈ (candidates.splitBy fun a b => a.1.1 == b.1.1).flatten :=
    List.mem_flatten_of_mem hblock hc
  rw [List.flatten_splitBy] at hflat
  exact ⟨c, hflat, hfst⟩

end TableQuery
