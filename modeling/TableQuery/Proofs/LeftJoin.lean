/-
Left joins.

Whichever way the candidates are found, a left join pairs every row on the left with the rows on the
right for which its condition is true, and a row for which there is none with Null.

* `mergePairs_answers`, `tryPairs_answers` — the candidates, and what is left of them;
* `leftJoin_allPairs`, `leftJoin_mergeKeys` — the pairs, by the way in which candidates are found;
* `leftJoin_eq` — the pairs are those of the join, and in the order of the rows when all pairs are
  candidates;
* `leftJoin_of_reachable` — so it is in every context that is come by.
-/
import TableQuery.Proofs.Alignment
import TableQuery.Proofs.EqualityKeys

namespace TableQuery

namespace Step

variable {engine : Engine} {c : Context} {table : String} {right : View} {on : Expr}

/-- The candidates with equal keys. -/
theorem mergePairs_answers {key : Expr} {keyOf : Nat → Value}
    (hkey : ∀ i, c.Reads engine key i (keyOf i)) (right : View) (field : String) :
    Answers (mergePairs engine key right field) c (fun _ d => c.Touched (fun _ => True) d)
      (.ok (mergeKeys (sortRowKeys (rowKeys keyOf c.size))
        (sortRowKeys (rowKeys (fun j => right.value j field) right.size)))) := by
  have hkeys : Answers ((List.range c.size).mapM fun i => do
      return (← (key.evaluator engine).value engine i false, i)) c
      (fun _ d => ∃ saw, d = { c with sawPlainColumn := saw })
      ((List.range c.size).mapM fun i => .ok (keyOf i, i)) := by
    refine Answers.mapM (I := fun _ d => ∃ saw, d = { c with sawPlainColumn := saw }) _ []
      ⟨c.sawPlainColumn, rfl⟩ ?_
    rintro before i after _ - ⟨saw, rfl⟩
    have hread : Answers ((key.evaluator engine).value engine i false)
        { c with sawPlainColumn := saw } (fun _ d => ∃ saw, d = { c with sawPlainColumn := saw })
        (.ok (keyOf i)) := .ok (hkey i saw) ⟨true, rfl⟩
    exact hread.bind (g := fun x => .ok (x, i)) fun _ _ _ hd => .pure hd
  rw [mapM_eq_ok (g := fun i => (keyOf i, i)) fun i _ => rfl] at hkeys
  refine Answers.of_eq (hkeys.bind (g := fun left => .ok (mergeKeys (sortRowKeys left)
    (sortRowKeys (rowKeys (fun j => right.value j field) right.size)))) ?_) rfl
  rintro _ _ - ⟨saw, rfl⟩
  exact .pure ((Context.Touched.refl _ c).note saw)

/-- Trying the condition on one pair. -/
def tryPair (engine : Engine) (condition : Evaluator) (q : RowPair × Nat) :
    Step (RowPair × Bool) := do
  if q.1.2.isSome then return (q.1, ← condition.holds engine q.2) else return (q.1, false)

/-- In the context of all candidates a pair holds as it would alone. -/
theorem tryPair_answers {start d : Context} {truth : Nat → Nat → Bool}
    {candidates : List RowPair} (hstart : start.Aligned) (ht : start.Touched (fun _ => True) c)
    (hon : on.AggregateFree engine.functions)
    (hrange : ∀ p ∈ candidates, p.1 < start.size ∧ ∀ j ∈ p.2, j < right.size)
    (htruth : ∀ i < start.size, ∀ j < right.size,
      ((on.evaluator engine).holds engine 0).runIn (start.joined table right [(i, some j)]) =
        .ok (truth i j))
    {q : RowPair × Nat} (hq : q ∈ candidates.zipIdx)
    (hd : (c.joined table right candidates).Touched (· ≠ q.2) d) :
    Answers (tryPair engine (on.evaluator engine) q) d (fun _ d' => d.Touched (· = q.2) d')
      (.ok (tested truth q.1)) := by
  obtain ⟨⟨i, j⟩, k⟩ := q
  have hk : candidates[k]? = some (i, j) := List.mem_zipIdx_iff_getElem?.mp hq
  obtain ⟨hi, hj⟩ := hrange (i, j) (List.mem_of_getElem? hk)
  cases j with
  | none => exact .pure (.refl _ d)
  | some j =>
    have hj : j < right.size := hj j rfl
    have hsame : Context.SameRow k 0 (c.joined table right candidates)
        (start.joined table right [(i, some j)]) :=
      .joined hstart ht (fun p hp => (hrange p hp).1) (by simpa using hi) hk rfl
    have hlocal := local_holds engine on
    have hholds := hlocal.answers (.inr hon) hd
    rw [hlocal.runIn_eq (.inr hon) hsame, htruth i hi j hj] at hholds
    exact hholds.bind (g := fun b => .ok ((i, some j), b)) fun _ _ _ hd' => .pure hd'

/-- Of candidates in range those that hold are left; the rows are as they were. -/
theorem tryPairs_answers {start : Context} {truth : Nat → Nat → Bool}
    {candidates : List RowPair} (hstart : start.Aligned) (ht : start.Touched (fun _ => True) c)
    (hon : on.AggregateFree engine.functions)
    (hrange : ∀ p ∈ candidates, p.1 < start.size ∧ ∀ j ∈ p.2, j < right.size)
    (htruth : ∀ i < start.size, ∀ j < right.size,
      ((on.evaluator engine).holds engine 0).runIn (start.joined table right [(i, some j)]) =
        .ok (truth i j)) :
    Answers (tryPairs engine candidates table right on) c (fun _ d => d.frame = start.frame)
      (.ok (outerPairs (candidates.map (tested truth)))) := by
  have hrows : (candidates.zipIdx.map Prod.snd).Nodup := by
    rw [List.zipIdx_map_snd]
    exact List.nodup_range'
  have hpair := fun q hq d hd =>
    tryPair_answers (d := d) hstart ht hon hrange htruth (q := q) hq hd
  -- every pair is tried in a row of its own, so no trial is disturbed by another one
  have htried := Answers.mapM_touched (c := c.joined table right candidates) hrows
    (f := tryPair engine (on.evaluator engine)) fun q hq d hd =>
      (hpair q hq d hd).congr (hpair q hq _ (.refl _ _)).runIn.symm
  have hresult : (candidates.zipIdx.mapM fun q =>
      (tryPair engine (on.evaluator engine) q).runIn (c.joined table right candidates)) =
      .ok (candidates.map (tested truth)) := by
    have hfst : (candidates.zipIdx.map Prod.fst).map (tested truth) =
        candidates.map (tested truth) := by rw [List.zipIdx_map_fst]
    rw [mapM_eq_ok fun q hq => (hpair q hq _ (.refl _ _)).runIn]
    rw [List.map_map] at hfst
    exact congrArg Except.ok hfst
  rw [hresult] at htried
  refine Answers.of_eq (htried.bind (g := fun tried => .ok (outerPairs tried)) (f := fun tried => do
    modify fun d => { d with frame := c.frame, memo := c.memo }
    return outerPairs tried) ?_) rfl
  intro tried d _ _
  exact .ok rfl ht.frame

theorem mem_mergeKeys {left right : Nat} {key key' : Nat → Value} {p : RowPair}
    (h : p ∈ mergeKeys (sortRowKeys (rowKeys key left)) (sortRowKeys (rowKeys key' right))) :
    p.1 < left ∧ ∀ j ∈ p.2, j < right := by
  rw [mergeKeys_eq_flatMap (sortedKeys_sortRowKeys _) (sortedKeys_sortRowKeys _)] at h
  obtain ⟨l, hl, hp⟩ := List.mem_flatMap.mp h
  have hrow : ∀ {key : Nat → Value} {size : Nat} {k : RowKey},
      k ∈ sortRowKeys (rowKeys key size) → k.2 < size := by
    intro key size k hk
    obtain ⟨i, hi, rfl⟩ := List.mem_map.mp ((sortRowKeys_perm _).subset hk)
    exact List.mem_range.mp hi
  refine ⟨fst_of_mem_joinedRow hp ▸ hrow hl, fun j hj => ?_⟩
  rw [RowKey.candidates, joinedRow] at hp
  split at hp
  · rw [List.mem_singleton.mp hp] at hj
    cases hj
  · obtain ⟨k, hk, rfl⟩ := List.mem_map.mp hp
    obtain ⟨r, hr, rfl⟩ := List.mem_map.mp hk
    obtain rfl : r.2 = j := Option.mem_some_iff.mp hj
    exact hrow (List.mem_filter.mp hr).1

/-- Once the pairs are found the rows are those of the pairs. -/
theorem leftJoin_of_pairs {aliases : List String} {pairs : List RowPair}
    (halias : c.frame.view? table = none)
    (hpairs : Answers (if c.size = 0 ∨ right.size = 0 then
        pure ((List.range c.size).map fun i => (i, none))
      else do
        let candidates ← match c.equalityKeys? on aliases table right with
          | some (key, field) => mergePairs engine key right field
          | none => pure (allPairs c.size right.size)
        tryPairs engine candidates table right on) c (fun _ d => d.frame = c.frame) (.ok pairs)) :
    ∃ d, leftJoin engine aliases table right on c = .ok (aliases ++ [table]) d ∧
      d.frame = (c.frame.take (pairs.map Prod.fst)).push table (right.paired pairs) := by
  have hjoin : Answers (leftJoin engine aliases table right on) c
      (fun _ d => d.frame = (c.frame.take (pairs.map Prod.fst)).push table (right.paired pairs))
      (.ok (aliases ++ [table])) := by
    refine Answers.of_eq (hpairs.bind (g := fun _ => .ok (aliases ++ [table])) (f := fun pairs => do
      modify fun c =>
        let frame := (c.frame.take (pairs.map Prod.fst)).push table (right.paired pairs)
        { (c.registerFields table right.fields).replaceFrame frame with sawPlainColumn := false }
      return aliases ++ [table]) ?_) ?_
    · rintro _ d h hframe
      cases h
      exact .ok rfl (by rw [← hframe]; rfl)
    · rw [leftJoin, get_bind, halias]
      by_cases hempty : c.size = 0 ∨ right.size = 0
      · simp only [hempty, if_true]
        rfl
      · simp only [hempty, if_false]
        cases c.equalityKeys? on aliases table right with
        | none => rfl
        | some found =>
          rw [bind_assoc]
          rfl
  exact hjoin.eq_ok

/-- With the cross product as candidates the pairs are those of the join, in order. -/
theorem leftJoin_allPairs {aliases : List String} {truth : Nat → Nat → Bool} (hc : c.Aligned)
    (halias : c.frame.view? table = none) (hon : on.AggregateFree engine.functions)
    (hfound : c.size = 0 ∨ right.size = 0 ∨ c.equalityKeys? on aliases table right = none)
    (htruth : ∀ i < c.size, ∀ j < right.size,
      ((on.evaluator engine).holds engine 0).runIn (c.joined table right [(i, some j)]) =
        .ok (truth i j)) :
    ∃ d, leftJoin engine aliases table right on c = .ok (aliases ++ [table]) d ∧
      d.frame = (c.frame.take ((joinedPairs c.size right.size truth).map Prod.fst)).push table
        (right.paired (joinedPairs c.size right.size truth)) := by
  refine leftJoin_of_pairs halias ?_
  by_cases hempty : c.size = 0 ∨ right.size = 0
  · rw [if_pos hempty, joinedPairs_eq_map _ _ _ hempty]
    exact .pure rfl
  · rw [if_neg hempty, hfound.resolve_left (fun h => hempty (.inl h)) |>.resolve_left
      (fun h => hempty (.inr h)), ← outerPairs_allPairs truth c.size (by omega)]
    exact tryPairs_answers hc (.refl _ c) hon (fun p => mem_allPairs) htruth

/-- With merged keys as candidates the pairs are those that hold among them. -/
theorem leftJoin_mergeKeys {aliases : List String} {truth : Nat → Nat → Bool} {key : Expr}
    {field : String} {keyOf : Nat → Value} {pairs : List RowPair} (hc : c.Aligned)
    (halias : c.frame.view? table = none) (hon : on.AggregateFree engine.functions)
    (hempty : ¬(c.size = 0 ∨ right.size = 0))
    (hfound : c.equalityKeys? on aliases table right = some (key, field))
    (hreads : ∀ i, c.Reads engine key i (keyOf i))
    (htruth : ∀ i < c.size, ∀ j < right.size,
      ((on.evaluator engine).holds engine 0).runIn (c.joined table right [(i, some j)]) =
        .ok (truth i j))
    (hpairs : pairs = outerPairs ((mergeKeys (sortRowKeys (rowKeys keyOf c.size)) (sortRowKeys
      (rowKeys (fun j => right.value j field) right.size))).map (tested truth))) :
    ∃ d, leftJoin engine aliases table right on c = .ok (aliases ++ [table]) d ∧
      d.frame = (c.frame.take (pairs.map Prod.fst)).push table (right.paired pairs) := by
  refine leftJoin_of_pairs halias ?_
  rw [if_neg hempty, hfound, hpairs]
  exact (mergePairs_answers hreads right field).bind
    (g := fun candidates => .ok (outerPairs (candidates.map (tested truth)))) fun candidates d h ht =>
      tryPairs_answers hc ht hon (fun p hp => by cases h; exact mem_mergeKeys hp) htruth

/-- A left join pairs every row on the left with the rows for which the condition is true, and a
row for which there is none with Null. The order of the pairs is that of the rows when all pairs are
candidates. -/
theorem leftJoin_eq {aliases : List String} {truth : Nat → Nat → Bool} (hc : c.Aligned)
    (halias : c.frame.view? table = none) (hon : on.AggregateFree engine.functions)
    (hkeys : (c.equalityKeys? on aliases table right).isSome →
      ∀ r ∈ c.frame.rows, r.keys.get? on.label = none)
    (htruth : ∀ i < c.size, ∀ j < right.size,
      ((on.evaluator engine).holds engine 0).runIn (c.joined table right [(i, some j)]) =
        .ok (truth i j)) :
    ∃ pairs d, leftJoin engine aliases table right on c = .ok (aliases ++ [table]) d ∧
      d.frame = (c.frame.take (pairs.map Prod.fst)).push table (right.paired pairs) ∧
      pairs.Perm (joinedPairs c.size right.size truth) ∧
      (c.equalityKeys? on aliases table right = none →
        pairs = joinedPairs c.size right.size truth) := by
  by_cases hempty : c.size = 0 ∨ right.size = 0
  · obtain ⟨d, hd, hframe⟩ := leftJoin_allPairs hc halias hon
      (hempty.imp_right .inl) htruth
    exact ⟨_, d, hd, hframe, .refl _, fun _ => rfl⟩
  cases hfound : c.equalityKeys? on aliases table right with
  | none =>
    obtain ⟨d, hd, hframe⟩ := leftJoin_allPairs hc halias hon (.inr (.inr hfound)) htruth
    exact ⟨_, d, hd, hframe, .refl _, fun _ => rfl⟩
  | some found =>
    obtain ⟨key, field⟩ := found
    obtain ⟨keyOf, hreads, hequal⟩ :=
      equal_of_equalityKeys? hc halias hfound (hkeys (by rw [hfound]; rfl)) htruth
    -- pairs come in the order of keys now, not in that of the rows
    obtain ⟨d, hd, hframe⟩ := leftJoin_mergeKeys hc halias hon hempty hfound hreads htruth rfl
    exact ⟨_, d, hd, hframe, outerPairs_mergeKeys_perm hequal, fun h => by cases h⟩

/-- In every context that is come by, a left join with a view under a new alias succeeds when its
condition can be tried on every pair of rows, and its rows are those of the pairs for which the
condition is true, and for a row without any of them a pair with nothing. When the rows are found by
their keys, none of them may keep a value under the label of the condition, which only grouping by
that very condition brings about. -/
theorem leftJoin_of_reachable {aliases : List String} {truth : Nat → Nat → Bool}
    (hc : c.Reachable engine) (halias : c.frame.view? table = none)
    (hon : on.AggregateFree engine.functions)
    (hkeys : (c.equalityKeys? on aliases table right).isSome →
      ∀ r ∈ c.frame.rows, r.keys.get? on.label = none)
    (htruth : ∀ i < c.size, ∀ j < right.size,
      ((on.evaluator engine).holds engine 0).runIn (c.joined table right [(i, some j)]) =
        .ok (truth i j)) :
    ∃ pairs d, leftJoin engine aliases table right on c = .ok (aliases ++ [table]) d ∧
      d.frame = (c.frame.take (pairs.map Prod.fst)).push table (right.paired pairs) ∧
      pairs.Perm (joinedPairs c.size right.size truth) ∧
      (c.equalityKeys? on aliases table right = none →
        pairs = joinedPairs c.size right.size truth) :=
  leftJoin_eq hc.aligned halias hon hkeys htruth

/-! ### Rows that keep a value under the label of the condition -/

/-- A view of two rows. -/
def points : View := ⟨["x", "y"],
  #[.ofList [("x", .ofNat 1), ("y", .ofNat 2)], .ofList [("x", .ofNat 5), ("y", .ofNat 5)]]⟩

/-- A view of one row. -/
def heights : View := ⟨["y"], #[.ofList [("y", .ofNat 1)]]⟩

/-- A context with the points as its rows. -/
def pointsContext : Context := Context.after .builtin {} (.addView "a" points)

/-- The condition `a.x = b.y`. -/
def atHeight : Expr := .binary .eq (.qualified "a" "x") (.qualified "b" "y")

/-- The condition `x = y`. -/
def onDiagonal : Expr := .binary .eq (.field "x") (.field "y")

theorem leftJoin_points : ∃ pairs d,
    leftJoin .builtin ["a"] "b" heights atHeight pointsContext = .ok ["a", "b"] d ∧
      d.frame = (pointsContext.frame.take (pairs.map Prod.fst)).push "b" (heights.paired pairs) ∧
      pairs.Perm [(0, some 0), (1, none)] := by
  have htruth : ∀ i < pointsContext.size, ∀ j < heights.size,
      (((atHeight.evaluator .builtin).holds .builtin 0).runIn
        (pointsContext.joined "b" heights [(i, some j)])).toOption = some (i == 0) := by
    decide +kernel
  have hon : atHeight.AggregateFree Engine.builtin.functions := by
    exact .binary _ (.of_qualified _ _ _) (.of_qualified _ _ _)
  obtain ⟨pairs, d, hd, hframe, hperm, -⟩ := leftJoin_of_reachable (Context.Reachable.start.after _)
    (by decide +kernel) hon (fun _ => by decide +kernel)
    fun i hi j hj => eq_ok_of_toOption (htruth i hi j hj)
  exact ⟨pairs, d, hd, hframe, hperm.trans (.of_eq (by decide +kernel))⟩

/-- The points grouped by `x` and by `x = y`. -/
def groupedPoints : Context :=
  pointsContext.after .builtin (.groupBy [.field "x", onDiagonal])

/-- Grouping by the condition keeps its values under its label. A pair then counts by the value that
was kept, but it is a candidate only if its cells are equal. -/
theorem not_forall_leftJoin_pairs : ¬ ∀ (engine : Engine) (c : Context) (aliases : List String)
    (table : String) (right : View) (on : Expr) (truth : Nat → Nat → Bool),
    c.Reachable engine → c.frame.view? table = none → on.AggregateFree engine.functions →
    (∀ i < c.size, ∀ j < right.size,
      ((on.evaluator engine).holds engine 0).runIn (c.joined table right [(i, some j)]) =
        .ok (truth i j)) →
    ∃ pairs d, leftJoin engine aliases table right on c = .ok (aliases ++ [table]) d ∧
      d.frame = (c.frame.take (pairs.map Prod.fst)).push table (right.paired pairs) ∧
      pairs.Perm (joinedPairs c.size right.size truth) := by
  intro h
  have hreachable : groupedPoints.Reachable .builtin := (Context.Reachable.start.after _).after _
  have hon : onDiagonal.AggregateFree Engine.builtin.functions := .binary _ (.of_field _ _) (.of_field _ _)
  have htruth : ∀ i < groupedPoints.size, ∀ j < heights.size,
      (((onDiagonal.evaluator .builtin).holds .builtin 0).runIn
        (groupedPoints.joined "b" heights [(i, some j)])).toOption = some (i == 1) := by
    decide +kernel
  have htruth' := fun i hi j hj => eq_ok_of_toOption (htruth i hi j hj)
  obtain ⟨pairs, d, hd, hframe, hperm⟩ := h .builtin groupedPoints ["a"] "b" heights onDiagonal
    (fun i _ => i == 1) hreachable (by decide +kernel) hon htruth'
  -- by their keys, one row has a candidate that does not hold, and the other has none
  have hpairs : [(0, none), (1, none)] = outerPairs ((mergeKeys
      (sortRowKeys (rowKeys (groupedPoints.cell ⟨"a", "x"⟩) groupedPoints.size))
      (sortRowKeys (rowKeys (fun j => heights.value j "y") heights.size))).map
        (tested fun i _ => i == 1)) := by
    rw [sortRowKeys_of_sorted (by rw [SortedKeys]; decide +kernel),
      sortRowKeys_of_sorted (by rw [SortedKeys]; decide +kernel)]
    decide +kernel
  have hfound : groupedPoints.equalityKeys? onDiagonal ["a"] "b" heights = some (.field "x", "y") :=
    rfl
  have halias : groupedPoints.frame.view? "b" = none := by decide +kernel
  obtain ⟨d', hd', hframe'⟩ := leftJoin_mergeKeys hreachable.aligned halias hon
    (by decide +kernel) hfound (Context.reads_of_direct rfl (by decide +kernel)) htruth' hpairs
  obtain rfl : d = d' := by
    have heq := hd.symm.trans hd'
    cases heq
    rfl
  have hviews : heights.paired pairs = heights.paired [(0, none), (1, none)] := by
    have hview := congrArg (Frame.view? · "b") (hframe.symm.trans hframe')
    exact Option.some.inj ((Context.view?_joined_right heights halias pairs).symm.trans
      (hview.trans (Context.view?_joined_right heights halias _)))
  -- yet the second row is to be paired with the only candidate there is
  have hmem : (1, some 0) ∈ pairs := hperm.mem_iff.mpr (by decide +kernel)
  obtain ⟨k, hk⟩ := List.mem_iff_getElem?.mp hmem
  have hvalue : (heights.paired pairs).value k "y" = heights.value 0 "y" :=
    View.value_paired hk (by decide) "y"
  rw [hviews] at hvalue
  have hnull : ∀ k, ((heights.paired [(0, none), (1, none)]).value k "y").isNull = true := by
    rintro (_ | _ | k) <;> rfl
  have hone := hnull k
  rw [hvalue] at hone
  exact absurd hone (by decide +kernel)

end Step

end TableQuery
