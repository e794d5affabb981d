/-
What rows are numbered and ranked by.

The functions `row_number` and `rank` go along the sorted rows of a partition and look at neighbours only.
What they come to can be told for each row by itself, by counting the rows of its partition that are sorted
before it: the rank counts those with a key before its own, and the number also those with a level key that
stand before it in the table.

* `rankOf`, `rowNumberOf` — rank and number of a row;
* `Function.ranks_eq`, `rowNumbers_eq` — what the functions come to along sorted rows;
* `Step.windowResults_ranking` — every row has its number or its rank.
-/
import TableQuery.Proofs.SortedPartitions

namespace TableQuery

variable {directions : List Direction} {key : Nat → List Value}

/-- The rank of a row among others: one more than the rows whose keys are before its own. -/
def rankOf (directions : List Direction) (key : Nat → List Value) (places : List Nat) (i : Nat) : Nat :=
  1 + places.countP fun j => compareKeys directions (key j) (key i) == .lt

/-- The number of a row among others: it follows the rows with keys before its own, and the rows with level
keys that stand before it. -/
def rowNumberOf (directions : List Direction) (key : Nat → List Value) (places : List Nat) (i : Nat) :
    Nat :=
  rankOf directions key places i +
    places.countP fun j => compareKeys directions (key j) (key i) == .eq && decide (j < i)

theorem rankOf_perm {places places' : List Nat} (h : places.Perm places') (i : Nat) :
    rankOf directions key places i = rankOf directions key places' i := by
  rw [rankOf, rankOf, h.countP_eq]

theorem rowNumberOf_perm {places places' : List Nat} (h : places.Perm places') (i : Nat) :
    rowNumberOf directions key places i = rowNumberOf directions key places' i := by
  rw [rowNumberOf, rowNumberOf, rankOf_perm h, h.countP_eq]

/-! ### The order of rows by their keys -/

/-- Keys are tied if they are level in every direction. -/
theorem Function.tied_iff : ∀ {ds : List Direction} {xs ys : List Value}, xs.length = ds.length →
    ys.length = ds.length → (tied xs ys = true ↔ compareKeys ds xs ys = .eq)
  | [], [], [], _, _ => by simp [tied, compareKeys]
  | d :: ds, x :: xs, y :: ys, hx, hy => by
    have hrest : tied xs ys = true ↔ compareKeys ds xs ys = .eq :=
      tied_iff (by simpa using hx) (by simpa using hy)
    have hfirst : x.sortCompare y = .eq ↔ d.order x y = .eq := by
      cases d with
      | ascending => exact Iff.rfl
      | descending => exact Std.OrientedCmp.eq_comm
    rw [compareKeys_cons, Ordering.then_eq_eq, ← hrest, ← hfirst]
    simp [tied]

/-- Rows are in a transitive order if all keys have a value for every direction. -/
theorem transCmp_compareKeys (hkey : ∀ i, (key i).length = directions.length) :
    Std.TransCmp fun i j => compareKeys directions (key i) (key j) where
  eq_swap := compareKeys_swap _ _ _
  isLE_trans {i j k} hij hjk := by
    rw [Ordering.isLE_iff_ne_gt] at hij hjk ⊢
    exact compareKeys_trans (hkey i) (hkey j) (hkey k) hij hjk

section Sorted

variable {before after : List Nat} {i j : Nat}

/-- Keys of later rows are not before that of a sorted row. -/
theorem countP_lt_of_sorted
    (h : (before ++ i :: after).Pairwise fun i j => compareKeys directions (key i) (key j) ≠ .gt) :
    (before ++ i :: after).countP (fun j => compareKeys directions (key j) (key i) == .lt) =
      before.countP fun j => compareKeys directions (key j) (key i) == .lt := by
  have hnone : (i :: after).countP (fun j => compareKeys directions (key j) (key i) == .lt) = 0 := by
    refine List.countP_eq_zero.mpr fun j hj hlt => ?_
    have hlt : compareKeys directions (key j) (key i) = .lt := by simpa using hlt
    rcases List.mem_cons.mp hj with rfl | hj
    · rw [compareKeys_self] at hlt
      cases hlt
    · have hle := (List.pairwise_cons.mp (List.pairwise_append.mp h).2.1).1 j hj
      rw [compareKeys_swap, hlt] at hle
      exact hle rfl
  rw [List.countP_append, hnone, Nat.add_zero]

/-- The number of a sorted row is its position from one. -/
theorem rowNumberOf_of_sorted
    (hordered : (before ++ i :: after).Pairwise
      fun i j => compareKeys directions (key i) (key j) ≠ .gt)
    (hstable : (before ++ i :: after).Pairwise
      fun i j => compareKeys directions (key i) (key j) = .eq → i < j) :
    rowNumberOf directions key (before ++ i :: after) i = before.length + 1 := by
  have hlevel : (before ++ i :: after).countP
      (fun j => compareKeys directions (key j) (key i) == .eq && decide (j < i)) =
        before.countP fun j => !(compareKeys directions (key j) (key i) == .lt) := by
    have hnone : (i :: after).countP
        (fun j => compareKeys directions (key j) (key i) == .eq && decide (j < i)) = 0 := by
      refine List.countP_eq_zero.mpr fun j hj hboth => ?_
      obtain ⟨heq, hlt⟩ : compareKeys directions (key j) (key i) = .eq ∧ j < i := by simpa using hboth
      rcases List.mem_cons.mp hj with rfl | hj
      · exact Nat.lt_irrefl j hlt
      · rw [compareKeys_swap, Ordering.swap_eq_eq] at heq
        have hij := (List.pairwise_cons.mp (List.pairwise_append.mp hstable).2.1).1 j hj heq
        omega
    rw [List.countP_append, hnone, Nat.add_zero]
    refine List.countP_congr fun j hj => ?_
    -- a row before is level if its key is not before, and then it stands before in the table as well
    have hle := (List.pairwise_append.mp hordered).2.2 j hj i List.mem_cons_self
    have hij := (List.pairwise_append.mp hstable).2.2 j hj i List.mem_cons_self
    cases hcompare : compareKeys directions (key j) (key i) with
    | lt => simp
    | eq => simpa using hij hcompare
    | gt => exact absurd hcompare hle
  have hlength := before.length_eq_countP_add_countP
    fun j => compareKeys directions (key j) (key i) == .lt
  simp only [Bool.not_eq_true, Bool.decide_eq_false] at hlength
  rw [rowNumberOf, rankOf, countP_lt_of_sorted hordered, hlevel]
  omega

/-- Along sorted rows the numbers go up from one. -/
theorem rowNumbers_eq {places : List Nat}
    (hordered : places.Pairwise fun i j => compareKeys directions (key i) (key j) ≠ .gt)
    (hstable : places.Pairwise fun i j => compareKeys directions (key i) (key j) = .eq → i < j) :
    places.map (rowNumberOf directions key places) = (List.range places.length).map (· + 1) := by
  refine List.ext_getElem (by simp) fun k hk _ => ?_
  have hk' : k < places.length := by simpa using hk
  -- the row at `k` has `k` rows before it
  have hsplit : places = places.take k ++ places[k] :: places.drop (k + 1) := by
    rw [List.getElem_cons_drop, List.take_append_drop]
  have hnumber := rowNumberOf_of_sorted (hsplit ▸ hordered) (hsplit ▸ hstable)
  rw [← hsplit, List.length_take_of_le (Nat.le_of_lt hk')] at hnumber
  simpa using hnumber

variable (hkey : ∀ i, (key i).length = directions.length)
include hkey

/-- Rows with level keys have one rank. -/
theorem rankOf_level (hlevel : compareKeys directions (key j) (key i) = .eq) (places : List Nat) :
    rankOf directions key places j = rankOf directions key places i := by
  have := transCmp_compareKeys hkey
  have hsame : ∀ k, compareKeys directions (key k) (key j) = compareKeys directions (key k) (key i) :=
    fun k => @Std.TransCmp.congr_right _ (fun i j => compareKeys directions (key i) (key j)) _ k _ _ hlevel
  simp only [rankOf, hsame]

/-- Behind a sorted row the next one has the same rank if their keys are tied, or else its position. -/
theorem rankOf_next {done : List Nat}
    (h : (done ++ [i]).Pairwise fun i j => compareKeys directions (key i) (key j) ≠ .gt)
    (hij : compareKeys directions (key i) (key j) ≠ .gt) :
    rankOf directions key (done ++ [i]) j =
      if Function.tied (key i) (key j) then rankOf directions key done i else done.length + 2 := by
  have := transCmp_compareKeys hkey
  by_cases htied : Function.tied (key i) (key j) = true
  · have hlevel := (Function.tied_iff (hkey i) (hkey j)).mp htied
    rw [if_pos htied, ← rankOf_level hkey hlevel, rankOf, rankOf, List.countP_append]
    simp [compareKeys_self]
  · have hlt : compareKeys directions (key i) (key j) = .lt := by
      rw [Function.tied_iff (hkey i) (hkey j)] at htied
      cases hcompare : compareKeys directions (key i) (key j) <;> simp_all
    -- a key that is not tied with the last one is behind all of them
    have hall : ∀ k ∈ done, compareKeys directions (key k) (key j) = .lt := by
      intro k hk
      have hki := (List.pairwise_append.mp h).2.2 k hk i (List.mem_singleton.mpr rfl)
      exact @Std.TransCmp.lt_of_isLE_of_lt _ (fun i j => compareKeys directions (key i) (key j)) _ k i j
        (Ordering.isLE_iff_ne_gt.mpr hki) hlt
    have hcount : done.countP (fun k => compareKeys directions (key k) (key j) == .lt) = done.length :=
      List.countP_eq_length.mpr fun k hk => beq_iff_eq.mpr (hall k hk)
    rw [if_neg htied, rankOf, List.countP_append, hcount]
    simp [hlt]
    omega

/-- Going along sorted rows, the ranks count the rows with keys before. -/
theorem Function.ranksFrom_eq : ∀ (done : List Nat) (i : Nat) (rest : List Nat),
    (done ++ i :: rest).Pairwise (fun i j => compareKeys directions (key i) (key j) ≠ .gt) →
    ranksFrom (done.length + 2) (rankOf directions key done i) (key i) (rest.map key) =
      rest.map (rankOf directions key (done ++ i :: rest))
  | _, _, [], _ => rfl
  | done, i, j :: rest, h => by
    have happend : done ++ i :: j :: rest = (done ++ [i]) ++ j :: rest := by simp
    have hij : compareKeys directions (key i) (key j) ≠ .gt :=
      (List.pairwise_cons.mp (List.pairwise_append.mp h).2.1).1 j List.mem_cons_self
    rw [happend] at h ⊢
    have hrest := ranksFrom_eq (done ++ [i]) j rest h
    have hnext := rankOf_next hkey (List.pairwise_append.mp h).1 hij
    have hrank : rankOf directions key (done ++ [i] ++ j :: rest) j =
        rankOf directions key (done ++ [i]) j := by
      rw [rankOf, countP_lt_of_sorted h, rankOf]
    rw [List.map_cons, List.map_cons, ranksFrom, hrank, ← hrest, hnext, List.length_append]
    rfl

theorem Function.ranks_eq {places : List Nat}
    (h : places.Pairwise fun i j => compareKeys directions (key i) (key j) ≠ .gt) :
    ranks (places.map key) = places.map (rankOf directions key places) := by
  cases places with
  | nil => rfl
  | cons i rest =>
    have hfirst : rankOf directions key (i :: rest) i = 1 := by
      have hcount := @countP_lt_of_sorted directions key [] rest i h
      simpa [rankOf] using hcount
    rw [List.map_cons, List.map_cons, ranks, hfirst]
    exact congrArg _ (ranksFrom_eq hkey [] i rest h)

end Sorted

/-! ### Windows -/

namespace Step

open Context

variable {engine : Engine} {c d : Context}

/-- A window function without arguments sees the keys of the sorted rows. -/
theorem runIn_functionWindow {name : String} {f : SortedPartition → Except FunctionError (List Value)}
    {p : Expr.CallParts} (hp : p.arguments = []) {order : List OrderItem} {keys : List (List Value)}
    {size : Nat} {values : List Value}
    (hf : f ⟨List.replicate size [], order, keys⟩ = .ok values) (hlength : values.length = size) :
    (functionWindow engine name f p order keys size).runIn c = .ok values := by
  have htuples : ((List.range size).mapM fun i => Evaluator.values engine
      (Expr.evaluators engine p.arguments) i false) c = .ok (List.replicate size []) c := by
    rw [hp]
    show ((List.range size).mapM fun _ => (pure [] : Step (List Value))) c = _
    rw [List.mapM_pure, List.map_const', List.length_range]
    rfl
  refine runIn_eq_ok.mpr ⟨c, ?_⟩
  have hlift : lift ((Except.ok values).mapError (.function name)) c = .ok values c := rfl
  rw [functionWindow, bind_of_ok htuples, hf, bind_of_ok hlift, if_pos hlength]
  rfl

/-- The rows of a window are numbered. -/
theorem windowFunction_rowNumber (keys : List Expr) (order : List OrderItem) (extent : Extent) :
    windowFunction .builtin ⟨.call "row_number" none [], keys, order, extent⟩ =
      .ok (⟨"row_number", none, []⟩, .window Function.rowNumber) := by
  rw [windowFunction]
  rfl

theorem refuseArguments_replicate (name : String) (n : Nat) (order : List OrderItem)
    (keys : List (List Value)) :
    Function.refuseArguments name ⟨List.replicate n [], order, keys⟩ = .ok () := by
  cases n <;> rfl

theorem rowNumber_replicate (n : Nat) (order : List OrderItem) (keys : List (List Value)) :
    Function.rowNumber ⟨List.replicate n [], order, keys⟩ =
      .ok ((List.range n).map fun k => Value.ofNat (k + 1)) := by
  rw [Function.rowNumber, refuseArguments_replicate]
  simp

theorem rank_replicate (n : Nat) {order : List OrderItem} (horder : order ≠ [])
    (keys : List (List Value)) : Function.rank ⟨List.replicate n [], order, keys⟩ =
      .ok ((Function.ranks keys).map Value.ofNat) := by
  rw [Function.rank, refuseArguments_replicate]
  simp [horder]

section Windows

variable {w : Expr.WindowParts} {key order : Expr → Nat → Value} {sorting : Nat → Context}
  {p : Expr.CallParts} {label : String}
  (h : WindowValues engine w key order sorting c) (hp : p.arguments = [])
  (hnone : c.frame.result? label 0 = none)

/-- The rows of a partition, sorted or not, are the partition of each of them. -/
theorem sortedPeers_perm_peers {r j n : Nat} (hj : j ∈ sortedPeers w key order n r) :
    (sortedPeers w key order n r).Perm (peers (partitionKey w key) n j) := by
  have hperm := sortedPeers_perm w key order n r
  rwa [← peers_congr (hperm.subset hj)] at hperm

/-- Along a sorted partition the numbers of the rows go up from one. -/
theorem rowNumbers_sortedPeers (w : Expr.WindowParts) (key order : Expr → Nat → Value) (n r : Nat) :
    (sortedPeers w key order n r).map (fun j => rowNumberOf (w.order.map OrderItem.direction)
        (sortKey w.order order) (peers (partitionKey w key) n j) j) =
      (List.range (sortedPeers w key order n r).length).map (· + 1) := by
  rw [← rowNumbers_eq (ordered_sortedPeers w key order n r) (level_sortedPeers w key order n r)]
  exact List.map_congr_left fun j hj => (rowNumberOf_perm (sortedPeers_perm_peers hj) j).symm

/-- Along a sorted partition the ranks are those that the function comes to. -/
theorem ranks_sortedPeers (w : Expr.WindowParts) (key order : Expr → Nat → Value) (n r : Nat) :
    Function.ranks ((sortedPeers w key order n r).map (sortKey w.order order)) =
      (sortedPeers w key order n r).map fun j => rankOf (w.order.map OrderItem.direction)
        (sortKey w.order order) (peers (partitionKey w key) n j) j := by
  rw [Function.ranks_eq (length_sortKey w.order order) (ordered_sortedPeers w key order n r)]
  exact List.map_congr_left fun j hj => rankOf_perm (sortedPeers_perm_peers hj) j

include h hp hnone

theorem windowResults_rowNumber (hw : windowFunction engine w = .ok (p, .window Function.rowNumber)) :
    ∃ d, windowResults engine (orderBy engine w.order) w label c = .ok ⟨⟩ d ∧
      ∀ r < c.size, d.frame.result? label r =
        some (.ofNat (rowNumberOf (w.order.map OrderItem.direction) (sortKey w.order order)
          (peers (partitionKey w key) c.size r) r)) := by
  refine h.windowResults _ hw hnone fun r hr places d _ => runIn_functionWindow hp ?_ (by simp)
  rw [rowNumber_replicate]
  have hnumbers := congrArg (List.map Value.ofNat) (rowNumbers_sortedPeers w key order c.size r)
  rw [List.map_map, List.map_map] at hnumbers
  exact congrArg Except.ok hnumbers.symm

theorem windowResults_rank (horder : w.order ≠ [])
    (hw : windowFunction engine w = .ok (p, .window Function.rank)) :
    ∃ d, windowResults engine (orderBy engine w.order) w label c = .ok ⟨⟩ d ∧
      ∀ r < c.size, d.frame.result? label r =
        some (.ofNat (rankOf (w.order.map OrderItem.direction) (sortKey w.order order)
          (peers (partitionKey w key) c.size r) r)) := by
  refine h.windowResults _ hw hnone fun r hr places d _ => runIn_functionWindow hp ?_ (by simp)
  rw [rank_replicate _ horder, ranks_sortedPeers, List.map_map]
  rfl

end Windows

/-- Every row has its number or its rank. The numbers of a partition are those from one to its size, and rows
with level keys share a rank. -/
theorem windowResults_ranking {w : Expr.WindowParts} {key order : Expr → Nat → Value}
    {sorting : Nat → Context} {p : Expr.CallParts} {label : String}
    (h : WindowValues engine w key order sorting c) (hp : p.arguments = [])
    (hnone : c.frame.result? label 0 = none) :
    let directions := w.order.map OrderItem.direction
    let part := peers (partitionKey w key) c.size
    (windowFunction engine w = .ok (p, .window Function.rowNumber) →
      ∃ d, windowResults engine (orderBy engine w.order) w label c = .ok ⟨⟩ d ∧
        (∀ r < c.size, d.frame.result? label r =
          some (.ofNat (rowNumberOf directions (sortKey w.order order) (part r) r))) ∧
        ∀ r < c.size, ((part r).map (d.frame.result? label)).Perm
          ((List.range (part r).length).map fun k => some (.ofNat (k + 1)))) ∧
    (windowFunction engine w = .ok (p, .window Function.rank) → w.order ≠ [] →
      ∃ d, windowResults engine (orderBy engine w.order) w label c = .ok ⟨⟩ d ∧
        (∀ r < c.size, d.frame.result? label r =
          some (.ofNat (rankOf directions (sortKey w.order order) (part r) r))) ∧
        ∀ r < c.size, ∀ j ∈ part r, compareKeys directions (sortKey w.order order j)
          (sortKey w.order order r) = .eq → d.frame.result? label j = d.frame.result? label r) := by
  intro directions part
  refine ⟨fun hw => ?_, fun hw horder => ?_⟩
  · obtain ⟨d, hd, hresult⟩ := windowResults_rowNumber h hp hnone hw
    refine ⟨d, hd, hresult, fun r hr => ?_⟩
    have hperm := sortedPeers_perm w key order c.size r
    have hfound : (sortedPeers w key order c.size r).map (d.frame.result? label) =
        (List.range (part r).length).map fun k => some (Value.ofNat (k + 1)) := by
      have hnumbers := congrArg (List.map (some ∘ Value.ofNat))
        (rowNumbers_sortedPeers w key order c.size r)
      rw [List.map_map, List.map_map, hperm.length_eq] at hnumbers
      refine (List.map_congr_left fun j hj => ?_).trans hnumbers
      exact hresult j (lt_of_mem_peers (hperm.subset hj))
    exact hfound ▸ (hperm.map _).symm
  · obtain ⟨d, hd, hresult⟩ := windowResults_rank h hp hnone horder hw
    refine ⟨d, hd, hresult, fun r hr j hj hlevel => ?_⟩
    rw [hresult j (lt_of_mem_peers hj), hresult r hr, peers_congr hj]
    exact congrArg (some ∘ Value.ofNat) (rankOf_level (length_sortKey w.order order) hlevel (part r))

theorem windowResults_ranking_amounts :
    let number := byFallingAmount (.call "row_number" none []) .whole
    let rank := byFallingAmount (.call "rank" none []) .whole
    (∃ d, windowResults .builtin (orderBy .builtin number.order) number "n" amounts = .ok ⟨⟩ d ∧
      ∀ r < 3, d.frame.result? "n" r = some (.ofNat (if r = 2 then 2 else 1))) ∧
    ∃ d, windowResults .builtin (orderBy .builtin rank.order) rank "n" amounts = .ok ⟨⟩ d ∧
      ∀ r < 3, d.frame.result? "n" r = some (.ofNat (if r = 2 then 2 else 1)) := by
  intro number rank
  have hnone : amounts.frame.result? "n" 0 = none := rfl
  have hrows : ∀ i < 3, i = 0 ∨ i = 1 ∨ i = 2 := by omega
  constructor
  · obtain ⟨d, hd, hnumbers, -⟩ := (windowResults_ranking
      (windowValues_byFallingAmount (.call "row_number" none []) .whole) rfl hnone).1
        (windowFunction_rowNumber _ _ _)
    refine ⟨d, hd, fun r hr => (hnumbers r hr).trans (congrArg (some ∘ Value.ofNat) ?_)⟩
    obtain rfl | rfl | rfl := hrows r hr
    all_goals decide +kernel
  · obtain ⟨d, hd, hranks, -⟩ := (windowResults_ranking
      (windowValues_byFallingAmount (.call "rank" none []) .whole) rfl hnone).2 rfl (by simp [byFallingAmount])
    refine ⟨d, hd, fun r hr => (hranks r hr).trans (congrArg (some ∘ Value.ofNat) ?_)⟩
    obtain rfl | rfl | rfl := hrows r hr
    all_goals decide +kernel

/-- Keys with different labels may share one inside. Then the second of them takes a value of the first for
its own, and rows with different keys are numbered together. -/
theorem not_forall_windowResults_ranking : ¬ ∀ (c : Context) (w : Expr.WindowParts)
    (key : Expr → Nat → Value) (p : Expr.CallParts) (label : String), c.Reachable .builtin →
    (w.partition.map Expr.label).Nodup →
    (∀ k ∈ w.partition, k.AggregateFree Engine.builtin.functions) → w.order = [] →
    (∀ k ∈ w.partition, ∀ i < c.size, (evaluate .builtin k i false).runIn c = .ok (key k i)) →
    c.frame.result? label 0 = none → p.arguments = [] →
    windowFunction .builtin w = .ok (p, .window Function.rowNumber) →
    ∃ d, windowResults .builtin (orderBy .builtin w.order) w label c = .ok ⟨⟩ d ∧
      ∀ r < c.size, d.frame.result? label r = some (.ofNat
        (rowNumberOf [] (fun _ => []) (peers (partitionKey w key) c.size r) r)) := by
  intro h
  obtain ⟨d, hd, hnumbers⟩ := h twoRows (overShared (.call "row_number" none []) .whole) twoRowsValue _ "n"
    (Context.Reachable.start.after _) (by decide +kernel) aggregateFree_sharingLabels rfl
    runIn_sharingLabels rfl rfl (windowFunction_rowNumber _ _ _)
  have hone : rowNumberOf [] (fun _ => [])
      (peers (partitionKey (overShared (.call "row_number" none []) .whole) twoRowsValue) twoRows.size 1)
      1 = 1 := by
    decide +kernel
  have hfirst := hnumbers 1 (by decide +kernel)
  rw [hone] at hfirst
  -- both rows are put into one partition, where the second row has the number two
  obtain ⟨d', hd', hsecond⟩ : ∃ d, windowResults .builtin (orderBy .builtin [])
      (overShared (.call "row_number" none []) .whole) "n" twoRows = .ok ⟨⟩ d ∧
        d.frame.result? "n" 1 = some (.ofNat 2) := ⟨_, rfl, rfl⟩
  obtain ⟨-, rfl⟩ := EStateM.Result.ok.inj (hd.symm.trans hd')
  have hequal := congrArg (Option.map (Value.equal (.ofNat 1))) (hsecond.symm.trans hfirst)
  exact absurd hequal (by decide +kernel)

end Step

end TableQuery
