/-
What an aggregate is given around a row.

A window may cover, for each row of a sorted partition, a range of positions around it. Its bounds are
computed in integers that end at a greatest position. In a partition that is not beyond all bounds this makes
no difference: the row has the value of the aggregate over just the positions between the exact bounds, and
there is an error only where the exact bounds, cut at the ends of the partition, have changed places.

* `Bound.exact`, `Extent.covered` — the bounds without an end, and the positions between them;
* `Extent.rows_eq` — the positions that are taken, or the error;
* `Step.windowResults_extents` — every row has the value over the rows that are covered, or there is an
  error.
-/
import TableQuery.Proofs.ImplicitGroup
import TableQuery.Proofs.SortedPartitions

namespace TableQuery

/-! ### Positions -/

/-- The position that a bound designates for a row of a partition of the given size, wherever it lies. -/
def Bound.exact (b : Bound) (row size : Nat) : Int :=
  match b with
  | unboundedPreceding => 0
  | preceding n => row - n
  | currentRow => row
  | following n => row + n
  | unboundedFollowing => size - 1

namespace Extent

variable {x : Extent} {row size : Nat}

/-- The positions between the bounds for a row. -/
def covered (x : Extent) (row size : Nat) : List Nat :=
  (List.range size).filter fun k => x.first.exact row size ≤ k ∧ k ≤ x.last.exact row size

/-- The first position is at most one behind the last, when both are cut at the ends of the partition. -/
def Ordered (x : Extent) (row size : Nat) : Prop :=
  max 0 (x.first.exact row size) ≤ min (x.last.exact row size) (size - 1) + 1

instance (x : Extent) (row size : Nat) : Decidable (x.Ordered row size) :=
  inferInstanceAs (Decidable (_ ≤ _))

end Extent

/-- A position is the exact one, or both lie well beyond the same end of the partition. -/
theorem Bound.position_exact (b : Bound) {row size : Nat} (hsize : size < 2 ^ 62) (hrow : row < size) :
    b.position row size = b.exact row size ∨ (b.position row size < -1 ∧ b.exact row size < -1) ∨
      (size < b.position row size ∧ size < b.exact row size) := by
  cases b with
  | unboundedPreceding => exact .inl rfl
  | _ =>
    simp only [position, exact, clamp, greatest]
    omega

/-- What is left of the first numbers without some of them. -/
theorem drop_range {a b n : Nat} (h : b ≤ n) :
    (List.range b).drop a = (List.range n).filter fun k => decide (a ≤ k) && decide (k < b) := by
  refine List.Perm.eq_of_pairwise (fun i j _ _ hij hji => absurd hij (Nat.lt_asymm hji))
    (List.pairwise_lt_range.drop) (List.pairwise_lt_range.filter _) ?_
  refine (List.perm_ext_iff_of_nodup (List.nodup_range.sublist (List.drop_sublist _ _))
    (List.nodup_range.filter _)).mpr fun k => ?_
  rw [List.range_eq_range', List.drop_range', List.mem_range'_1, List.mem_filter, List.mem_range]
  simp only [Bool.and_eq_true, decide_eq_true_eq]
  omega

/-- The positions that are taken are those between the exact bounds. -/
theorem Extent.rows_eq (x : Extent) {row size : Nat} (hsize : size < 2 ^ 62) (hrow : row < size) :
    x.rows row size = if x.Ordered row size then .ok (x.covered row size)
      else .error (.invalidExtent (max (x.first.position row size) 0)
        (min (x.last.position row size) (size - 1) + 1)) := by
  have hfirst := x.first.position_exact hsize hrow
  have hlast := x.last.position_exact hsize hrow
  -- cut at the ends of the partition, computed and exact bounds are in the same order
  have hordered : x.Ordered row size ↔ ¬min (x.last.position row size) (size - 1) + 1 <
      max (x.first.position row size) 0 := by
    rw [Ordered]
    omega
  rw [rows]
  by_cases h : x.Ordered row size
  · rw [if_pos h, if_neg (hordered.mp h), covered, drop_range (n := size) (by omega)]
    refine congrArg Except.ok (List.filter_congr fun k hk => ?_)
    have hk := List.mem_range.mp hk
    rw [← Bool.decide_and, decide_eq_decide]
    omega
  · rw [if_neg h, if_pos (not_not.mp (mt hordered.mpr h))]

/-- The rows that are covered for the row at a position of sorted rows, in their order. -/
def Extent.coveredRows (x : Extent) (sorted : List Nat) (position : Nat) : List Nat :=
  (x.covered position sorted.length).map fun k => sorted.getD k 0

theorem Extent.mem_of_mem_coveredRows {x : Extent} {sorted : List Nat} {k i : Nat}
    (hi : i ∈ x.coveredRows sorted k) : i ∈ sorted := by
  obtain ⟨j, hj, rfl⟩ := List.mem_map.mp hi
  have hlt : j < sorted.length := List.mem_range.mp (List.mem_filter.mp hj).1
  simp [hlt]

/-- Bounds beyond the ends of the partition cover all of its rows. -/
theorem Extent.coveredRows_eq_self {x : Extent} {sorted : List Nat} {k : Nat}
    (hfirst : x.first.exact k sorted.length ≤ 0)
    (hlast : (sorted.length : Int) - 1 ≤ x.last.exact k sorted.length) :
    x.coveredRows sorted k = sorted := by
  have hall : x.covered k sorted.length = List.range sorted.length := by
    refine List.filter_eq_self.mpr fun j hj => ?_
    have hlt := List.mem_range.mp hj
    rw [decide_eq_true_iff]
    omega
  rw [coveredRows, hall]
  exact (Step.map_range_getD sorted id).trans sorted.map_id

/-- Bounds beyond the ends of the partition are in order. -/
theorem Extent.ordered_of_covering {x : Extent} {k n : Nat} (hfirst : x.first.exact k n ≤ 0)
    (hlast : (n : Int) - 1 ≤ x.last.exact k n) : x.Ordered k n := by
  rw [Extent.Ordered]
  omega

theorem exists_mapM_eq_error {α β ε : Type} [Inhabited α] {l : List β} {f : β → Except ε α} {b : β} {e : ε}
    (hb : b ∈ l) (h : f b = .error e) : ∃ e, l.mapM f = .error e := by
  cases hmap : l.mapM f with
  | error e => exact ⟨e, rfl⟩
  | ok as =>
    obtain ⟨g, hg, -⟩ := Step.exists_of_mapM_eq_ok hmap
    rw [hg b hb] at h
    cases h

namespace Step

open Context

variable {engine : Engine} {c d : Context} {w : Expr.WindowParts} {p : Expr.CallParts}
  {key order argument : Expr → Nat → Value} {sorting : Nat → Context} {r : Nat}

/-- The values of arguments in the rows of partitions. -/
structure ArgumentValues (engine : Engine) (w : Expr.WindowParts) (p : Expr.CallParts)
    (key argument : Expr → Nat → Value) (sorting : Nat → Context) (c : Context) : Prop where
  apart : Expr.LabelsApart fun q => ∃ a ∈ p.arguments, q.Outside engine.functions a
  free : ∀ a ∈ p.arguments, a.AggregateFree engine.functions
  values : ∀ r < c.size, ∀ a ∈ p.arguments, ∀ k i : Nat,
    (peers (partitionKey w key) c.size r)[k]? = some i →
      (evaluate engine a k true).runIn (.ofFrame (sorting r).frame) = .ok (argument a i)

/-- Arguments have the values in a partition that they have in the rows of the frame, if nothing is computed
there before. -/
theorem ArgumentValues.of_ofFrame (hc : c.Aligned)
    (apart : Expr.LabelsApart fun q => ∃ a ∈ p.arguments, q.Outside engine.functions a)
    (free : ∀ a ∈ p.arguments, a.AggregateFree engine.functions)
    (values : ∀ a ∈ p.arguments, ∀ i < c.size,
      (evaluate engine a i true).runIn (.ofFrame c.frame) = .ok (argument a i)) :
    ArgumentValues engine w p key argument
      (fun r => .ofFrame (c.frame.partitionOf (partitionKey w key) r).frame) c where
  apart := apart
  free := free
  values r _ a ha k i hk := by
    rw [frame_ofFrame, ← values a ha i (lt_of_mem_peers (List.mem_of_getElem? hk))]
    exact (local_evaluate engine a true).runIn_eq (.inr (free a ha))
      (sameRow_ofFrame_take hc.frame (fun _ => lt_of_mem_peers) hk)

/-- The arguments of a call in a row. -/
def tupleOf (p : Expr.CallParts) (argument : Expr → Nat → Value) (i : Nat) : List Value :=
  p.arguments.map (argument · i)

/-- An aggregate over rows of a sorted partition is given the arguments in these rows, in their order. -/
theorem aggregateOver_sorted (hc : c.Aligned) (h : WindowValues engine w key order sorting c)
    (ha : ArgumentValues engine w p key argument sorting c) (hr : r < c.size) {places rows : List Nat}
    (horder : InOrder w key order sorting c r places d)
    (hrows : ∀ k ∈ rows, k < (sortedPeers w key order c.size r).length)
    (f : Tuples → Bool → Option Quantifier → Except FunctionError Value) :
    aggregateOver p.name f (fun i => Evaluator.values engine (Expr.evaluators engine p.arguments) i true)
        p.quantifier (d.frame.take rows) =
      (f (rows.map fun k => tupleOf p argument ((sortedPeers w key order c.size r).getD k 0))
        rows.isEmpty p.quantifier).mapError (.function p.name) := by
  let members := peers (partitionKey w key) c.size r
  have haligned := h.aligned_sorting hc hr
  have hplaces := h.lt_size_sorting hr horder
  have hlength := horder.length_eq
  have htuples : tuplesOf engine p.arguments ((sorting r).frame.take places) rows =
      .ok (rows.map fun k => tupleOf p argument ((sortedPeers w key order c.size r).getD k 0)) := by
    refine mapM_eq_ok fun k hk => ?_
    have hk : k < places.length := hlength ▸ hrows k hk
    -- the sorted row at `k` was the member at the place `places[k]`
    have hlt : places[k] < members.length := h.size_sorting hr ▸ hplaces _ (List.getElem_mem hk)
    have hmember : (sortedPeers w key order c.size r).getD k 0 = members[places[k]] := by
      rw [← horder.rows]
      simp [hk, members, hlt]
    have hsame := sameRow_ofFrame_take haligned hplaces (List.getElem?_eq_getElem hk)
    rw [evaluateAll, (local_values engine p.arguments true).runIn_eq (.inr ha.free) hsame,
      hmember]
    exact runIn_values_of_evaluate (fun a hmem => .inr (ha.free a hmem)) ha.apart fun a hmem =>
      ha.values r hr a hmem _ _ (List.getElem?_eq_getElem hlt)
  rw [horder.frame hc, aggregateOver_take (haligned.take (.inl hplaces))
    (fun k hk => by rw [Frame.size_take, ← hlength]; exact hrows k hk) ha.free, htuples]
  rfl

/-- The value of an aggregate for the row at a position of a sorted partition, or the error. -/
theorem runIn_aggregateWindow {name : String}
    {f : Tuples → Bool → Option Quantifier → Except FunctionError Value} {x : Extent} {size : Nat}
    (hx : x.isWhole = false) : (aggregateWindow engine name f p x size).runIn d =
      (List.range size).mapM fun k => x.rows k size >>= fun rows =>
        aggregateOver name f (fun i => Evaluator.values engine (Expr.evaluators engine p.arguments) i true)
          p.quantifier (d.frame.take rows) := by
  rw [runIn, EStateM.run, aggregateWindow, get_bind]
  simp only [hx, Bool.false_eq_true, if_false]
  exact runIn_lift _ d

theorem runIn_aggregateWindow_whole {name : String}
    {f : Tuples → Bool → Option Quantifier → Except FunctionError Value} {x : Extent} {size : Nat}
    (hx : x.isWhole = true) : (aggregateWindow engine name f p x size).runIn d =
      (aggregateOver name f (fun i => Evaluator.values engine (Expr.evaluators engine p.arguments) i true)
        p.quantifier d.frame).map (List.replicate size) := by
  rw [runIn, EStateM.run, aggregateWindow, get_bind]
  simp only [hx, if_true]
  cases aggregateOver name f (fun i => Evaluator.values engine (Expr.evaluators engine p.arguments) i true)
    p.quantifier d.frame <;> rfl

section Values

variable {f : Tuples → Bool → Option Quantifier → Except FunctionError Value} {total : List Nat → Value}
  {places : List Nat}

/-- The aggregate has a value for all rows that may be covered. -/
def Totals (f : Tuples → Bool → Option Quantifier → Except FunctionError Value) (p : Expr.CallParts)
    (argument : Expr → Nat → Value) (n : Nat) (total : List Nat → Value) : Prop :=
  ∀ rows : List Nat, (∀ i ∈ rows, i < n) →
    f (rows.map (tupleOf p argument)) rows.isEmpty p.quantifier = .ok (total rows)

theorem aggregateOver_total (hc : c.Aligned) (h : WindowValues engine w key order sorting c)
    (ha : ArgumentValues engine w p key argument sorting c) (hr : r < c.size)
    (horder : InOrder w key order sorting c r places d) (htotal : Totals f p argument c.size total)
    {rows : List Nat} (hrows : ∀ k ∈ rows, k < (sortedPeers w key order c.size r).length) :
    aggregateOver p.name f (fun i => Evaluator.values engine (Expr.evaluators engine p.arguments) i true)
        p.quantifier (d.frame.take rows) =
      .ok (total (rows.map fun k => (sortedPeers w key order c.size r).getD k 0)) := by
  have hlt : ∀ i ∈ rows.map fun k => (sortedPeers w key order c.size r).getD k 0, i < c.size := by
    intro i hi
    obtain ⟨k, hk, rfl⟩ := List.mem_map.mp hi
    have hmem : (sortedPeers w key order c.size r).getD k 0 ∈ sortedPeers w key order c.size r := by
      simp [hrows k hk]
    exact lt_of_mem_peers ((sortedPeers_perm w key order c.size r).subset hmem)
  have hvalue := htotal _ hlt
  rw [List.map_map, List.isEmpty_map] at hvalue
  rw [aggregateOver_sorted hc h ha hr horder hrows]
  exact congrArg (Except.mapError (ExecutionError.function p.name)) hvalue

/-- Along sorted rows there is a value for the rows that are covered. -/
theorem runIn_valuesAlong (hc : c.Aligned) (h : WindowValues engine w key order sorting c)
    (ha : ArgumentValues engine w p key argument sorting c) (hr : r < c.size)
    (horder : InOrder w key order sorting c r places d) (htotal : Totals f p argument c.size total)
    (hsmall : (sortedPeers w key order c.size r).length < 2 ^ 62) (hx : w.extent.isWhole = false) :
    let sorted := sortedPeers w key order c.size r
    let n := sorted.length
    (valuesAlong engine (.aggregate f) p w order sorted).runIn d = (List.range n).mapM fun k =>
      if w.extent.Ordered k n then .ok (total (w.extent.coveredRows sorted k))
      else .error (.invalidExtent (max (w.extent.first.position k n) 0)
        (min (w.extent.last.position k n) (n - 1) + 1)) := by
  intro sorted n
  rw [valuesAlong, functionValues, runIn_aggregateWindow hx]
  refine mapM_congr fun k hk => ?_
  rw [w.extent.rows_eq hsmall (List.mem_range.mp hk)]
  by_cases hordered : w.extent.Ordered k n
  · have hcovered : ∀ i ∈ w.extent.covered k n, i < n := fun i hi =>
      List.mem_range.mp (List.mem_filter.mp hi).1
    rw [if_pos hordered, if_pos hordered]
    exact aggregateOver_total hc h ha hr horder htotal hcovered
  · rw [if_neg hordered, if_neg hordered]
    rfl

/-- Over the whole partition there is one value, for its sorted rows. -/
theorem runIn_valuesAlong_whole (hc : c.Aligned) (h : WindowValues engine w key order sorting c)
    (ha : ArgumentValues engine w p key argument sorting c) (hr : r < c.size)
    (horder : InOrder w key order sorting c r places d) (htotal : Totals f p argument c.size total)
    (hx : w.extent.isWhole = true) :
    let sorted := sortedPeers w key order c.size r
    (valuesAlong engine (.aggregate f) p w order sorted).runIn d =
      .ok (List.replicate sorted.length (total sorted)) := by
  intro sorted
  have hsize : d.frame.size = sorted.length := by
    rw [horder.frame hc, Frame.size_take, horder.length_eq]
  have haligned : d.frame.Aligned := by
    rw [horder.frame hc]
    exact (h.aligned_sorting hc hr).take (.inl (h.lt_size_sorting hr horder))
  have hrange : ∀ k ∈ List.range sorted.length, k < sorted.length := fun k hk => List.mem_range.mp hk
  have htotal := aggregateOver_total hc h ha hr horder htotal hrange
  have hall : (List.range sorted.length).map (fun k => sorted.getD k 0) = sorted :=
    (map_range_getD sorted id).trans sorted.map_id
  rw [← hsize, haligned.take_range, hsize, hall] at htotal
  rw [valuesAlong, functionValues, runIn_aggregateWindow_whole hx, htotal]
  rfl

/-- Every row has the value for the rows that are covered around it. -/
theorem windowResults_covered {label : String} (hc : c.Aligned)
    (h : WindowValues engine w key order sorting c)
    (ha : ArgumentValues engine w p key argument sorting c)
    (hw : windowFunction engine w = .ok (p, .aggregate f)) (hnone : c.frame.result? label 0 = none)
    (htotal : Totals f p argument c.size total)
    (hsmall : ∀ r < c.size, (sortedPeers w key order c.size r).length < 2 ^ 62)
    (hx : w.extent.isWhole = false)
    (hordered : ∀ r < c.size, ∀ k < (sortedPeers w key order c.size r).length,
      w.extent.Ordered k (sortedPeers w key order c.size r).length) :
    ∃ d, windowResults engine (orderBy engine w.order) w label c = .ok ⟨⟩ d ∧
      ∀ r < c.size, ∀ k : Nat, (sortedPeers w key order c.size r)[k]? = some r →
        d.frame.result? label r =
          some (total (w.extent.coveredRows (sortedPeers w key order c.size r) k)) := by
  let sorted (r : Nat) : List Nat := sortedPeers w key order c.size r
  let value (r : Nat) : Value := total (w.extent.coveredRows (sorted r) ((sorted r).idxOf r))
  have hvalue : ∀ r k j : Nat, (sorted r)[k]? = some j →
      value j = total (w.extent.coveredRows (sorted r) k) := by
    intro r k j hj
    obtain ⟨hk, rfl⟩ := List.getElem?_eq_some_iff.mp hj
    have hsame : sorted (sorted r)[k] = sorted r := sortedPeers_congr (List.getElem_mem hk)
    simp only [value, hsame]
    rw [(nodup_sortedPeers w key order c.size r).idxOf_getElem k hk]
  obtain ⟨d, hd, hresult⟩ := h.windowResults value hw hnone fun r hr places d horder => by
    rw [runIn_valuesAlong hc h ha hr horder htotal (hsmall r hr) hx, ← map_range_getD (sorted r) value]
    refine mapM_eq_ok fun k hk => ?_
    have hk : k < (sorted r).length := List.mem_range.mp hk
    rw [if_pos (hordered r hr k hk), hvalue r k _ (by simp [hk])]
  refine ⟨d, hd, fun r hr k hk => ?_⟩
  rw [hresult r hr, hvalue r k r hk]

/-- Over whole partitions every row has the value for its sorted partition. -/
theorem windowResults_whole {label : String} (hc : c.Aligned)
    (h : WindowValues engine w key order sorting c)
    (ha : ArgumentValues engine w p key argument sorting c)
    (hw : windowFunction engine w = .ok (p, .aggregate f)) (hnone : c.frame.result? label 0 = none)
    (htotal : Totals f p argument c.size total) (hx : w.extent.isWhole = true) :
    ∃ d, windowResults engine (orderBy engine w.order) w label c = .ok ⟨⟩ d ∧
      ∀ r < c.size, d.frame.result? label r = some (total (sortedPeers w key order c.size r)) := by
  refine h.windowResults _ hw hnone fun r hr places d horder => ?_
  rw [runIn_valuesAlong_whole hc h ha hr horder htotal hx]
  refine congrArg Except.ok (List.eq_replicate_iff.mpr ⟨by simp, fun v hv => ?_⟩).symm
  obtain ⟨j, hj, rfl⟩ := List.mem_map.mp hv
  rw [sortedPeers_congr hj]

/-- There is an error if and only if somewhere the bounds are out of order. -/
theorem windowResults_invalidExtent_iff {label : String} (hc : c.Aligned)
    (h : WindowValues engine w key order sorting c)
    (ha : ArgumentValues engine w p key argument sorting c)
    (hw : windowFunction engine w = .ok (p, .aggregate f)) (hnone : c.frame.result? label 0 = none)
    (htotal : Totals f p argument c.size total)
    (hsmall : ∀ r < c.size, (sortedPeers w key order c.size r).length < 2 ^ 62)
    (hx : w.extent.isWhole = false) :
    (∃ first last, (windowResults engine (orderBy engine w.order) w label).runIn c =
        .error (.invalidExtent first last)) ↔
      ∃ r < c.size, ∃ k < (sortedPeers w key order c.size r).length,
        ¬w.extent.Ordered k (sortedPeers w key order c.size r).length := by
  constructor
  · rintro ⟨first, last, herror⟩
    by_contra hnot
    obtain ⟨d, hd, -⟩ := windowResults_covered hc h ha hw hnone htotal hsmall hx
      fun r hr k hk => by_contra fun h => hnot ⟨r, hr, k, hk, h⟩
    rw [runIn_eq_ok.mpr ⟨d, hd⟩] at herror
    cases herror
  · rintro ⟨r, hr, k, hk, hnot⟩
    -- the only errors are those of positions whose bounds are out of order
    have herror : ∀ r < c.size, ∀ places d, InOrder w key order sorting c r places d → ∀ e,
        (valuesAlong engine (.aggregate f) p w order (sortedPeers w key order c.size r)).runIn d =
          .error e → ∃ first last, e = .invalidExtent first last := by
      intro r hr places d horder e he
      rw [runIn_valuesAlong hc h ha hr horder htotal (hsmall r hr) hx] at he
      obtain ⟨k, -, hk⟩ := exists_of_mapM_eq_error he
      split at hk
      · cases hk
      · exact ⟨_, _, (Except.error.inj hk).symm⟩
    obtain ⟨e, he, first, last, rfl⟩ := h.windowResults_error label hw hnone herror hr
      fun places d horder => by
        rw [runIn_valuesAlong hc h ha hr horder htotal (hsmall r hr) hx]
        exact exists_mapM_eq_error (List.mem_range.mpr hk) (if_neg hnot)
    exact ⟨first, last, he⟩

end Values

theorem WindowValues.withExtent (h : WindowValues engine w key order sorting c) (x : Extent) :
    WindowValues engine { w with extent := x } key order sorting c :=
  ⟨h.labels, h.keysApart, h.itemsApart, h.look, h.keys, h.windows, h.items⟩

theorem ArgumentValues.withExtent (h : ArgumentValues engine w p key argument sorting c) (x : Extent) :
    ArgumentValues engine { w with extent := x } p key argument sorting c := ⟨h.apart, h.free, h.values⟩

/-- The amounts that are there in a range around a row, by falling amounts under the same key. -/
def countAmounts (extent : Extent) : Expr.WindowParts :=
  byFallingAmount (.call "count" none [.field "x"]) extent

theorem windowFunction_countAmounts (extent : Extent) :
    windowFunction .builtin (countAmounts extent) =
      .ok (⟨"count", none, [.field "x"]⟩, .aggregate Function.count) := by
  rw [windowFunction]
  rfl

theorem windowValues_countAmounts (extent : Extent) :
    WindowValues .builtin (countAmounts extent) amountsValue amountsValue
      (fun r => .ofFrame
        (amounts.frame.partitionOf (partitionKey (countAmounts extent) amountsValue) r).frame)
      amounts :=
  windowValues_byFallingAmount _ extent

theorem argumentValues_countAmounts (extent : Extent) :
    ArgumentValues .builtin (countAmounts extent) ⟨"count", none, [.field "x"]⟩ amountsValue amountsValue
      (fun r => .ofFrame
        (amounts.frame.partitionOf (partitionKey (countAmounts extent) amountsValue) r).frame)
      amounts := by
  refine .of_ofFrame (Context.Reachable.start.after _).aligned (labelsApart_field "x") ?_ ?_
  · exact List.forall_mem_singleton.mpr (.of_field _ "x")
  · refine List.forall_mem_singleton.mpr fun i hi => ?_
    obtain rfl | rfl | rfl : i = 0 ∨ i = 1 ∨ i = 2 := by
      have : i < 3 := hi
      omega
    all_goals rfl

/-- Values that are there can be counted. -/
theorem exists_count_eq_ok (value : Nat → Value) (rows : List Nat) :
    ∃ v, Function.count (rows.map fun i => [value i]) rows.isEmpty none = .ok v := by
  cases rows with
  | nil => exact ⟨_, rfl⟩
  | cons i rows => exact ⟨_, rfl⟩

/-- An aggregate over a range around each row comes to its value for the tuples of just the rows whose positions
are between the exact bounds, in order. There is an error if and only if somewhere the bounds are out of order.
Bounds that cover everything give what the aggregate over the whole partition gives. -/
theorem windowResults_extents {label : String}
    {f : Tuples → Bool → Option Quantifier → Except FunctionError Value} (hc : c.Aligned)
    (h : WindowValues engine w key order sorting c)
    (ha : ArgumentValues engine w p key argument sorting c)
    (hw : windowFunction engine w = .ok (p, .aggregate f)) (hnone : c.frame.result? label 0 = none)
    (hf : ∀ rows : List Nat, (∀ i ∈ rows, i < c.size) →
      ∃ v, f (rows.map (tupleOf p argument)) rows.isEmpty p.quantifier = .ok v)
    (hsmall : ∀ r < c.size, (peers (partitionKey w key) c.size r).length < 2 ^ 62)
    (hx : w.extent.isWhole = false) :
    let sorted := sortedPeers w key order c.size
    let results := windowResults engine (orderBy engine w.order) w label
    ((∀ r < c.size, ∀ k < (sorted r).length, w.extent.Ordered k (sorted r).length) →
      ∃ d, results c = .ok ⟨⟩ d ∧ ∀ r < c.size, ∀ k : Nat, (sorted r)[k]? = some r →
        let rows := w.extent.coveredRows (sorted r) k
        ∃ v, d.frame.result? label r = some v ∧
          f (rows.map (tupleOf p argument)) rows.isEmpty p.quantifier = .ok v) ∧
    ((∃ first last, results.runIn c = .error (.invalidExtent first last)) ↔
      ∃ r < c.size, ∃ k < (sorted r).length, ¬w.extent.Ordered k (sorted r).length) ∧
    ((∀ r < c.size, ∀ k < (sorted r).length, w.extent.first.exact k (sorted r).length ≤ 0 ∧
        ((sorted r).length : Int) - 1 ≤ w.extent.last.exact k (sorted r).length) →
      ∃ d d', results c = .ok ⟨⟩ d ∧
        windowResults engine (orderBy engine w.order) { w with extent := .whole } label c = .ok ⟨⟩ d' ∧
        ∀ r < c.size, ∃ v, d.frame.result? label r = some v ∧ d'.frame.result? label r = some v) := by
  intro sorted results
  have hperm (r : Nat) : (sorted r).Perm (peers (partitionKey w key) c.size r) :=
    sortedPeers_perm w key order c.size r
  have hlength : ∀ r < c.size, (sorted r).length < 2 ^ 62 := fun r hr =>
    (hperm r).length_eq ▸ hsmall r hr
  have : Nonempty Value := ⟨.null⟩
  choose! total htotal using hf
  have hcovered := windowResults_covered hc h ha hw hnone htotal hlength hx
  refine ⟨fun hordered => ?_, windowResults_invalidExtent_iff hc h ha hw hnone htotal hlength hx,
    fun hbounds => ?_⟩
  · obtain ⟨d, hd, hresult⟩ := hcovered hordered
    refine ⟨d, hd, fun r hr k hk => ⟨_, hresult r hr k hk, htotal _ fun i hi => ?_⟩⟩
    exact lt_of_mem_peers ((hperm r).subset (Extent.mem_of_mem_coveredRows hi))
  · obtain ⟨d, hd, hresult⟩ := hcovered fun r hr k hk =>
      Extent.ordered_of_covering (hbounds r hr k hk).1 (hbounds r hr k hk).2
    obtain ⟨d', hd', hwhole⟩ := windowResults_whole hc (h.withExtent .whole) (ha.withExtent .whole) hw
      hnone htotal rfl
    refine ⟨d, d', hd, hd', fun r hr => ⟨_, ?_, hwhole r hr⟩⟩
    obtain ⟨k, hk⟩ := List.mem_iff_getElem?.mp ((hperm r).mem_iff.mpr (self_mem_peers hr))
    have hb := hbounds r hr k (List.getElem?_eq_some_iff.mp hk).1
    rw [hresult r hr k hk, Extent.coveredRows_eq_self hb.1 hb.2]
    rfl

theorem windowResults_extents_amounts :
    let next := countAmounts ⟨.currentRow, .following 18446744073709551615⟩
    let past := countAmounts ⟨.following 2, .currentRow⟩
    (∃ d, windowResults .builtin (orderBy .builtin next.order) next "n" amounts = .ok ⟨⟩ d ∧
      ∀ r < 3, d.frame.result? "n" r = some (.ofNat (if r = 0 then 2 else 1))) ∧
    ∃ first last, (windowResults .builtin (orderBy .builtin past.order) past "n").runIn amounts =
      .error (.invalidExtent first last) := by
  intro next past
  have haligned : amounts.Aligned := (Context.Reachable.start.after _).aligned
  have hnone : amounts.frame.result? "n" 0 = none := rfl
  have hrows : ∀ r < 3, r = 0 ∨ r = 1 ∨ r = 2 := by omega
  have hextents (x : Extent) (hx : (countAmounts x).extent.isWhole = false) :=
    windowResults_extents haligned (windowValues_countAmounts x) (argumentValues_countAmounts x)
      (windowFunction_countAmounts x) hnone (fun rows _ => exists_count_eq_ok _ rows)
      (fun r _ => Nat.lt_of_le_of_lt (List.length_filter_le _ _) (by decide +kernel)) hx
  have hsorted (x : Extent) {r : Nat} (hr : r < 3) : sortedPeers (countAmounts x) amountsValue amountsValue
      amounts.size r = if r = 1 then [1] else [0, 2] :=
    sortedPeers_byFallingAmount _ x hr
  constructor
  · obtain ⟨d, hd, hresults⟩ := (hextents ⟨.currentRow, .following 18446744073709551615⟩ rfl).1
      fun r hr k hk => by
        show max (0 : Int) k ≤ min ((k : Int) + (18446744073709551615 : Nat)) ((_ : Nat) - 1) + 1
        omega
    refine ⟨d, hd, fun r hr => ?_⟩
    have hposition : (sortedPeers next amountsValue amountsValue amounts.size r)[if r = 2 then 1 else 0]? =
        some r := by
      rw [hsorted _ hr]
      obtain rfl | rfl | rfl := hrows r hr
      all_goals rfl
    obtain ⟨v, hv, hcounted⟩ := hresults r hr _ hposition
    rw [hv]
    have hcovered : next.extent.coveredRows (sortedPeers next amountsValue amountsValue amounts.size r)
        (if r = 2 then 1 else 0) = if r = 0 then [0, 2] else [r] := by
      rw [hsorted _ hr]
      obtain rfl | rfl | rfl := hrows r hr
      all_goals decide +kernel
    rw [hcovered] at hcounted
    obtain rfl | rfl | rfl := hrows r hr
    all_goals exact congrArg some (Except.ok.inj hcounted).symm
  · refine (hextents ⟨.following 2, .currentRow⟩ rfl).2.1.mpr ⟨0, by decide +kernel, 0, ?_⟩
    rw [hsorted _ (by decide)]
    decide +kernel

/-- How many rows with the same keys there are up to a row. -/
def runningCount : Expr.WindowParts :=
  overShared (.callStar "count") ⟨.unboundedPreceding, .currentRow⟩

/-- Keys with different labels may share one inside. Then the second of them takes a value of the first for
its own, and rows with different keys are counted together. -/
theorem not_forall_windowResults_extents : ¬ ∀ (c : Context) (w : Expr.WindowParts) (p : Expr.CallParts)
    (key argument : Expr → Nat → Value) (label : String)
    (f : Tuples → Bool → Option Quantifier → Except FunctionError Value), c.Reachable .builtin →
    (w.partition.map Expr.label).Nodup → w.order = [] →
    (∀ k ∈ w.partition, k.AggregateFree Engine.builtin.functions) →
    (∀ a ∈ p.arguments, a.AggregateFree Engine.builtin.functions) →
    (∀ k ∈ w.partition, ∀ i < c.size, (evaluate .builtin k i false).runIn c = .ok (key k i)) →
    (∀ a ∈ p.arguments, ∀ i < c.size, (evaluate .builtin a i true).runIn c = .ok (argument a i)) →
    windowFunction .builtin w = .ok (p, .aggregate f) → c.frame.result? label 0 = none →
    (∀ rows : List Nat, ∃ v, f (rows.map (tupleOf p argument)) rows.isEmpty p.quantifier = .ok v) →
    w.extent.isWhole = false →
    let part := peers (partitionKey w key) c.size
    (∀ r < c.size, ∀ k < (part r).length, w.extent.Ordered k (part r).length) →
    ∃ d, windowResults .builtin (orderBy .builtin w.order) w label c = .ok ⟨⟩ d ∧
      ∀ r < c.size, ∀ k : Nat, (part r)[k]? = some r →
        let rows := w.extent.coveredRows (part r) k
        ∃ v, d.frame.result? label r = some v ∧
          f (rows.map (tupleOf p argument)) rows.isEmpty p.quantifier = .ok v := by
  intro h
  have hpart : peers (partitionKey runningCount twoRowsValue) twoRows.size 1 = [1] := by decide +kernel
  obtain ⟨d, hd, hcounts⟩ := h twoRows runningCount ⟨"count", none, [Expr.one]⟩ twoRowsValue
    (fun _ _ => .ofNat 1) "n" Function.count (Context.Reachable.start.after _) (by decide +kernel) rfl
    aggregateFree_sharingLabels (List.forall_mem_singleton.mpr (.of_literal _ _)) runIn_sharingLabels
    (List.forall_mem_singleton.mpr fun _ _ => rfl) rfl rfl (exists_count_eq_ok _) rfl
    fun r hr k hk => by
      show max (0 : Int) 0 ≤ min (k : Int) ((_ : Nat) - 1) + 1
      omega
  have hsecond := hcounts 1 (by decide +kernel) 0
  rw [hpart] at hsecond
  obtain ⟨v, hone, hcount⟩ := hsecond rfl
  -- both rows are put into one partition, and up to the second row there are two
  obtain ⟨d', hd', htwo⟩ : ∃ d, windowResults .builtin (orderBy .builtin []) runningCount "n" twoRows =
      .ok ⟨⟩ d ∧ d.frame.result? "n" 1 = some (.ofNat 2) := ⟨_, rfl, rfl⟩
  obtain ⟨-, rfl⟩ := EStateM.Result.ok.inj (hd.symm.trans hd')
  have hcovered : runningCount.extent.coveredRows [1] 0 = [1] := by decide +kernel
  rw [hcovered] at hcount
  have hequal := congrArg (Option.map (Value.equal (.ofNat 1))) (htwo.symm.trans hone)
  rw [← Except.ok.inj hcount] at hequal
  exact absurd hequal (by decide +kernel)

end Step

end TableQuery
