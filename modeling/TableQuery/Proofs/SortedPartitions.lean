/-
Partitions in order.

A partition is sorted in a context of its own, where windows among the items to sort by are computed first.
The results for its rows come out in the order of the items, and each is put back into the row that stands at
its place among the rows of the table. So it is enough to know the results along the sorted rows.

* `sortedPeers` — the rows of a partition in the order of the items;
* `Step.WindowValues` — the values that rows have for what a window is partitioned and sorted by;
* `Step.WindowValues.sorted` — sorting a partition puts its rows in order;
* `Step.WindowValues.windowResults` — every row has its result, if the results along the sorted rows are
  known.
-/
import TableQuery.Proofs.OrderedRows
import TableQuery.Proofs.Peers
import TableQuery.Proofs.WindowResults

namespace TableQuery

/-- Places among places stand in the order of what is at them. -/
theorem sortPlaces_getD (directions : List Direction) (key : Nat → List Value) (places : List Nat) :
    (sortPlaces directions (fun k => key (places.getD k 0)) (List.range places.length)).map
      (fun k => places.getD k 0) = sortPlaces directions key places := by
  have hrange : (List.range places.length).map (fun k => places.getD k 0) = places :=
    (Step.map_range_getD places id).trans places.map_id
  rw [sortPlaces, List.map_mergeSort (s := fun i j => compareKeys directions (key i) (key j) != .gt)
    (fun _ _ _ _ => rfl), hrange, sortPlaces]

theorem length_sortKey (items : List OrderItem) (value : Expr → Nat → Value) (i : Nat) :
    (sortKey items value i).length = (items.map OrderItem.direction).length := by
  simp [sortKey]

/-- The key of a row, by what the expressions that a window is partitioned by come to there. -/
def partitionKey (w : Expr.WindowParts) (value : Expr → Nat → Value) (i : Nat) : List Value :=
  w.partition.map (value · i)

/-- The rows of the partition of a row, in the order of the items. -/
def sortedPeers (w : Expr.WindowParts) (key order : Expr → Nat → Value) (n r : Nat) : List Nat :=
  sortPlaces (w.order.map OrderItem.direction) (sortKey w.order order)
    (peers (partitionKey w key) n r)

theorem sortedPeers_perm (w : Expr.WindowParts) (key order : Expr → Nat → Value) (n r : Nat) :
    (sortedPeers w key order n r).Perm (peers (partitionKey w key) n r) :=
  sortPlaces_perm _ _ _

theorem sortedPeers_congr {w : Expr.WindowParts} {key order : Expr → Nat → Value} {n r j : Nat}
    (hj : j ∈ sortedPeers w key order n r) : sortedPeers w key order n j = sortedPeers w key order n r := by
  rw [sortedPeers, peers_congr ((sortedPeers_perm w key order n r).subset hj), sortedPeers]

theorem nodup_sortedPeers (w : Expr.WindowParts) (key order : Expr → Nat → Value) (n r : Nat) :
    (sortedPeers w key order n r).Nodup :=
  (sortedPeers_perm w key order n r).nodup_iff.mpr ((pairwise_peers _ n r).imp Nat.ne_of_lt)

theorem ordered_sortedPeers (w : Expr.WindowParts) (key order : Expr → Nat → Value) (n r : Nat) :
    (sortedPeers w key order n r).Pairwise fun i j => compareKeys (w.order.map OrderItem.direction)
      (sortKey w.order order i) (sortKey w.order order j) ≠ .gt :=
  ordered_sortPlaces (length_sortKey w.order order) _

theorem level_sortedPeers (w : Expr.WindowParts) (key order : Expr → Nat → Value) (n r : Nat) :
    (sortedPeers w key order n r).Pairwise fun i j => compareKeys (w.order.map OrderItem.direction)
      (sortKey w.order order i) (sortKey w.order order j) = .eq → i < j := by
  rw [sortedPeers, peers, sortPlaces_filter (length_sortKey w.order order)]
  exact (level_sortPlaces (length_sortKey w.order order) n).filter _

/-- A permutation of the places of a group, each with the value of the member there. -/
theorem Group.Gives.zip_map {members places : List Nat} {f : Frame} {value : Nat → Value}
    (hperm : places.Perm (List.range members.length)) :
    Group.Gives ⟨members.toArray, f⟩ value
      (places.zip (places.map (value ∘ fun k => members.getD k 0))) where
  value r hr i hi := by
    rw [← List.map_prod_left_eq_zip] at hr
    obtain ⟨k, -, rfl⟩ := List.mem_map.mp hr
    simp at hi
    simp [hi]
  full k hk := by
    rw [← List.map_prod_left_eq_zip]
    have hmem : k ∈ places := hperm.mem_iff.mpr (by simpa using hk)
    exact ⟨_, List.mem_map_of_mem hmem⟩

/-- What is no window is partitioned by nothing. -/
theorem Expr.partition_of_window? {e : Expr} (h : e.window? = none) : e.partition = [] := by
  induction e using Expr.operands_induction with
  | step e ih =>
  cases e with
  | window => cases h
  | aliased e name => exact ih e (by simp [operands]) h
  | paren e => exact ih e (by simp [operands]) h
  | _ => rfl

namespace Step

open Context

variable {engine : Engine} {c d s : Context} {items : List OrderItem} {f : Frame}

/-! ### Windows among the items -/

/-- Partitioning the rows leaves everything but the partitions, unless an aggregate takes rows away. -/
theorem ensures_noted_partitionBy {keys : List Expr}
    (hlook : f.InGroups ∨ ∀ k ∈ keys, k.AggregateFree engine.functions) :
    Ensures (fun d => f.Noted (fun _ => True) d.frame) (partitionBy engine keys)
      fun _ d => f.Noted (fun _ => True) d.frame := by
  intro c groups d hc h
  have hlook' : ∀ i < c.size, c.InGroup i ∨ ∀ k ∈ keys, k.AggregateFree engine.functions :=
    fun i hi => hlook.imp_left fun hgroups => hgroups.noted hc i hi
  obtain ⟨key, d', -, rfl, t, rfl⟩ := exists_of_partitionBy_eq_ok hlook' h
  refine hc.trans ?_
  rw [← t.frame]
  exact .partitions (fun _ _ => trivial) d'.frame

/-- Results go to rows, and nothing else is changed. -/
theorem ensures_noted_putResults (label : String) (g : Group) (results : List (Nat × Value)) :
    Ensures (fun d => f.Noted (fun _ => True) d.frame) (putResults label g results)
      fun _ d => f.Noted (fun _ => True) d.frame :=
  .modify _ fun d hd => hd.trans (.results label g results d.frame)

/-- The items call no aggregate, nor do the keys of windows among them. -/
def Unaggregated (engine : Engine) (items : List OrderItem) : Prop :=
  ∀ item ∈ items, item.expr.Admitted (·.AggregateFree engine.functions)

theorem Unaggregated.aggregateFree (h : Unaggregated engine items) :
    ∀ e ∈ items.map OrderItem.expr, e.AggregateFree engine.functions := by
  intro e he
  obtain ⟨item, hitem, rfl⟩ := List.mem_map.mp he
  exact (h item hitem).self

/-- Windows among the items are noted in the rows, and nothing else is changed. -/
theorem noted_computeOrderWindows (hlook : f.InGroups ∨ Unaggregated engine items)
    (h : computeOrderWindows engine items (.ofFrame f) = .ok ⟨⟩ s) :
    f.Noted (fun _ => True) s.frame := by
  have hnoted : Ensures (fun d => f.Noted (fun _ => True) d.frame) (computeOrderWindows engine items)
      fun _ d => f.Noted (fun _ => True) d.frame :=
    ensures_computeOrderWindows ensures_noted_putResults fun item hitem =>
      ensures_noted_partitionBy (hlook.imp_right fun hfree => (hfree item hitem).partition)
  have hstart : f.Noted (fun _ => True) (Context.ofFrame f).frame := by
    rw [frame_ofFrame]
    exact .refl _ f
  exact hnoted hstart h

/-! ### Sorting a partition -/

/-- Sorting the rows of a frame, where windows among the items have values. -/
theorem orderBy_of_values {value : Expr → Nat → Value} (hlook : f.InGroups ∨ Unaggregated engine items)
    (hapart : Expr.LabelsApart fun q =>
      ∃ e ∈ items.map OrderItem.expr, q.Outside engine.functions e)
    (hwindows : computeOrderWindows engine items (.ofFrame f) = .ok ⟨⟩ s)
    (hvalue : ∀ e ∈ items.map OrderItem.expr, ∀ i < f.size,
      (evaluate engine e i false).runIn s = .ok (value e i)) {places : List Nat}
    (hplaces : sortPlaces (items.map OrderItem.direction) (sortKey items value) (List.range f.size) =
      places) :
    ∃ d, orderBy engine items (.ofFrame f) = .ok ⟨places, places.map (sortKey items value)⟩ d ∧
      d.frame = s.frame.take places := by
  have hnoted : f.Noted (fun _ => True) s.frame := noted_computeOrderWindows hlook hwindows
  have hsize : s.size = f.size := hnoted.size
  have hlook' : ∀ i < s.size, ∀ e ∈ items.map OrderItem.expr,
      s.InGroup i ∨ e.AggregateFree engine.functions := fun i hi e he =>
    hlook.imp (fun hgroups => hgroups.noted hnoted i hi) fun hfree => hfree.aggregateFree e he
  have hkey : ∀ i < s.size, (Evaluator.values engine (Expr.evaluators engine
      (items.map OrderItem.expr)) i false).runIn s = .ok (sortKey items value i) := by
    intro i hi
    exact runIn_values_of_evaluate (hlook' i hi) hapart fun e he => hvalue e he i (hsize ▸ hi)
  obtain ⟨c', t, -, hsort⟩ := sortRows_of_values (fun i hi => hlook.imp
    (fun hgroups => hgroups.noted hnoted i hi) fun hfree => hfree.aggregateFree) hkey
    (hsize.symm ▸ hplaces)
  refine ⟨_, (bind_of_ok hwindows).trans hsort, ?_⟩
  show c'.frame.take places = s.frame.take places
  rw [t.frame]

/-- The rows of a partition of the given size in the order of items. Without items they stay as they are. -/
def sortedPartition (engine : Engine) (items : List OrderItem) (size : Nat) : Step SortOutcome :=
  if items.isEmpty then pure ⟨List.range size, List.replicate size []⟩ else orderBy engine items

/-- The values of a function for the rows of a sorted partition of the given size. -/
def functionValues (engine : Engine) (f : Function) (p : Expr.CallParts) (w : Expr.WindowParts)
    (keys : List (List Value)) (size : Nat) : Step (List Value) :=
  match f with
  | .aggregate f => aggregateWindow engine p.name f p w.extent size
  | .window f => functionWindow engine p.name f p w.order keys size
  | .scalar _ => pure []

theorem partitionResults_apply (g : Function) (p : Expr.CallParts) (w : Expr.WindowParts) (c : Context) :
    partitionResults engine (orderBy engine w.order) g p w c =
      (sortedPartition engine w.order c.size >>= fun sorted =>
        functionValues engine g p w sorted.keys c.size >>= fun values =>
          pure (sorted.permutation.zip values)) c := by
  rw [partitionResults, get_bind, sortedPartition]
  cases w.order.isEmpty <;> cases g <;> rfl

/-- The results for a partition are the values of the function along its sorted rows. -/
theorem runIn_partitionResults {g : Function} {p : Expr.CallParts} {w : Expr.WindowParts}
    {sorted : SortOutcome} (hsorted : sortedPartition engine w.order f.size (.ofFrame f) = .ok sorted d) :
    (partitionResults engine (orderBy engine w.order) g p w).runIn (.ofFrame f) =
      ((functionValues engine g p w sorted.keys f.size).runIn d).map fun values =>
        sorted.permutation.zip values := by
  rw [runIn, EStateM.run, partitionResults_apply, size_ofFrame, bind_of_ok hsorted, runIn, EStateM.run]
  cases hvalues : functionValues engine g p w sorted.keys f.size d with
  | ok values d' => rw [bind_of_ok hvalues]; rfl
  | error e d' => rw [bind_of_error hvalues]; rfl

/-- The values that rows have for what a window is partitioned and sorted by. Each partition is sorted in a
context of its own, once the windows among the items are computed there. -/
structure WindowValues (engine : Engine) (w : Expr.WindowParts) (key order : Expr → Nat → Value)
    (sorting : Nat → Context) (c : Context) : Prop where
  labels : (w.partition.map Expr.label).Nodup
  keysApart : Expr.LabelsApart fun q => ∃ k ∈ w.partition, q.Outside engine.functions k
  itemsApart : Expr.LabelsApart fun q =>
    ∃ e ∈ w.order.map OrderItem.expr, q.Outside engine.functions e
  look : c.frame.InGroups ∨
    (∀ k ∈ w.partition, k.AggregateFree engine.functions) ∧ Unaggregated engine w.order
  keys : ∀ k ∈ w.partition, ∀ i < c.size, (evaluate engine k i false).runIn c = .ok (key k i)
  windows : ∀ r < c.size, computeOrderWindows engine w.order
    (.ofFrame (c.frame.partitionOf (partitionKey w key) r).frame) = .ok ⟨⟩ (sorting r)
  items : ∀ r < c.size, ∀ e ∈ w.order.map OrderItem.expr, ∀ k i : Nat,
    (peers (partitionKey w key) c.size r)[k]? = some i →
      (evaluate engine e k false).runIn (sorting r) = .ok (order e i)

/-- The partition of a row stands in the order of the items: the places are those that its rows had among its
members. -/
structure InOrder (w : Expr.WindowParts) (key order : Expr → Nat → Value) (sorting : Nat → Context)
    (c : Context) (r : Nat) (places : List Nat) (d : Context) : Prop where
  perm : places.Perm (List.range (peers (partitionKey w key) c.size r).length)
  rows : places.map (fun k => (peers (partitionKey w key) c.size r).getD k 0) =
    sortedPeers w key order c.size r
  frame : c.Aligned → d.frame = (sorting r).frame.take places

theorem InOrder.length_eq {w : Expr.WindowParts} {key order : Expr → Nat → Value}
    {sorting : Nat → Context} {r : Nat} {places : List Nat} (h : InOrder w key order sorting c r places d) :
    (sortedPeers w key order c.size r).length = places.length := by
  rw [← h.rows, List.length_map]

/-- The values of a function along rows in the order of the items. -/
def valuesAlong (engine : Engine) (f : Function) (p : Expr.CallParts) (w : Expr.WindowParts)
    (order : Expr → Nat → Value) (sorted : List Nat) : Step (List Value) :=
  functionValues engine f p w (sorted.map (sortKey w.order order)) sorted.length

namespace WindowValues

variable {w : Expr.WindowParts} {key order : Expr → Nat → Value} {sorting : Nat → Context} {r : Nat}

/-- Items that are no windows have the values in a partition that they have in the rows of the frame. -/
theorem of_window? (hc : c.Aligned) (labels : (w.partition.map Expr.label).Nodup)
    (keysApart : Expr.LabelsApart fun q => ∃ k ∈ w.partition, q.Outside engine.functions k)
    (itemsApart : Expr.LabelsApart fun q =>
      ∃ e ∈ w.order.map OrderItem.expr, q.Outside engine.functions e)
    (hkeys : ∀ k ∈ w.partition, k.AggregateFree engine.functions)
    (hitems : ∀ item ∈ w.order, item.expr.AggregateFree engine.functions)
    (hwindows : ∀ item ∈ w.order, item.expr.window? = none)
    (keys : ∀ k ∈ w.partition, ∀ i < c.size, (evaluate engine k i false).runIn c = .ok (key k i))
    (items : ∀ e ∈ w.order.map OrderItem.expr, ∀ i < c.size,
      (evaluate engine e i false).runIn (.ofFrame c.frame) = .ok (order e i)) :
    WindowValues engine w key order
      (fun r => .ofFrame (c.frame.partitionOf (partitionKey w key) r).frame) c where
  labels := labels
  keysApart := keysApart
  itemsApart := itemsApart
  look := .inr ⟨hkeys, fun item hitem => ⟨hitems item hitem, by
    simp [Expr.partition_of_window? (hwindows item hitem)]⟩⟩
  keys := keys
  windows r _ := by
    rw [computeOrderWindows_of_window? hwindows]
    rfl
  items r hr e he k i hk := by
    have hfree : e.AggregateFree engine.functions := by
      obtain ⟨item, hitem, rfl⟩ := List.mem_map.mp he
      exact hitems item hitem
    rw [← items e he i (lt_of_mem_peers (List.mem_of_getElem? hk))]
    exact (local_evaluate engine e false).runIn_eq (.inr hfree)
      (sameRow_ofFrame_take hc.frame (fun _ => lt_of_mem_peers) hk)

theorem keyed (h : WindowValues engine w key order sorting c) :
    Keyed engine w.partition (partitionKey w key) c :=
  .of_evaluate h.labels h.keysApart (h.look.imp id And.left) h.keys

/-- Rows of a partition are in groups, or else nothing that is evaluated for the items calls an aggregate. -/
theorem look_partition (h : WindowValues engine w key order sorting c) (r : Nat) :
    (c.frame.partitionOf (partitionKey w key) r).frame.InGroups ∨ Unaggregated engine w.order :=
  h.look.imp (fun hgroups => hgroups.take fun _ => lt_of_mem_peers) And.right

theorem noted (h : WindowValues engine w key order sorting c) (hr : r < c.size) :
    (c.frame.partitionOf (partitionKey w key) r).frame.Noted (fun _ => True) (sorting r).frame :=
  noted_computeOrderWindows (h.look_partition r) (h.windows r hr)

theorem size_sorting (h : WindowValues engine w key order sorting c) (hr : r < c.size) :
    (sorting r).frame.size = (peers (partitionKey w key) c.size r).length :=
  (h.noted hr).size.trans (Frame.size_take _ _)

theorem aligned_sorting (h : WindowValues engine w key order sorting c) (hc : c.Aligned)
    (hr : r < c.size) : (sorting r).frame.Aligned := by
  have hpart : (c.frame.take (peers (partitionKey w key) c.size r)).Aligned :=
    hc.frame.take (.inl fun _ => lt_of_mem_peers)
  intro v hv
  rw [(h.noted hr).views] at hv
  exact (hpart v hv).trans (h.noted hr).size.symm

/-- A partition is put in the order of the items. -/
theorem sorted (h : WindowValues engine w key order sorting c) (hr : r < c.size) :
    let part := (c.frame.partitionOf (partitionKey w key) r).frame
    ∃ places d, sortedPartition engine w.order part.size (.ofFrame part) =
        .ok ⟨places, (sortedPeers w key order c.size r).map (sortKey w.order order)⟩ d ∧
      InOrder w key order sorting c r places d := by
  intro part
  let members := peers (partitionKey w key) c.size r
  let value (e : Expr) (k : Nat) : Value := order e (members.getD k 0)
  have hsize : part.size = members.length := Frame.size_take _ _
  have hmap := sortPlaces_getD (w.order.map OrderItem.direction) (sortKey w.order order) members
  generalize hplaces : sortPlaces (w.order.map OrderItem.direction) (sortKey w.order value)
    (List.range members.length) = places
  rw [show sortPlaces _ (fun k => sortKey w.order order (members.getD k 0)) _ = places from hplaces]
    at hmap
  have hkeys : places.map (sortKey w.order value) =
      (sortedPeers w key order c.size r).map (sortKey w.order order) := by
    rw [sortedPeers, ← hmap, List.map_map]
    rfl
  have hperm : places.Perm (List.range members.length) := hplaces ▸ sortPlaces_perm _ _ _
  rw [← hkeys, sortedPartition]
  have hwindows := h.windows r hr
  by_cases hempty : w.order = []
  · -- without items nothing is sorted
    have hrange : places = List.range members.length := by
      rw [← hplaces, hempty]
      exact sortPlaces_nil _ _
    rw [hempty, computeOrderWindows] at hwindows
    have hsorting : sorting r = .ofFrame part := (EStateM.Result.ok.inj hwindows).2.symm
    refine ⟨places, .ofFrame part, ?_, hperm, hmap, fun hc => ?_⟩
    · have hnone : (List.range members.length).map (sortKey [] value) =
          List.replicate members.length [] := by
        simp [List.eq_replicate_iff, sortKey]
      rw [hempty, hrange, hsize, hnone]
      rfl
    · have halign : part.Aligned := hc.frame.take (.inl fun _ => lt_of_mem_peers)
      rw [hsorting, hrange, ← hsize, frame_ofFrame, halign.take_range]
  · have hitem : w.order.isEmpty = false := by simpa using hempty
    have hvalue : ∀ e ∈ w.order.map OrderItem.expr, ∀ k < part.size,
        (evaluate engine e k false).runIn (sorting r) = .ok (value e k) := by
      intro e he k hk
      rw [hsize] at hk
      exact h.items r hr e he k _ (by simp [members, hk])
    obtain ⟨d, horder, hframe⟩ := orderBy_of_values (h.look_partition r) h.itemsApart hwindows hvalue
      (hsize.symm ▸ hplaces)
    rw [hitem]
    exact ⟨places, d, horder, hperm, hmap, fun _ => hframe⟩

/-- The results for a partition are those along its sorted rows. -/
theorem exists_inOrder (h : WindowValues engine w key order sorting c) (hr : r < c.size)
    (p : Expr.CallParts) (f : Function) :
    ∃ places d, InOrder w key order sorting c r places d ∧
      (partitionResults engine (orderBy engine w.order) f p w).runIn
          (.ofFrame (c.frame.partitionOf (partitionKey w key) r).frame) =
        ((valuesAlong engine f p w order (sortedPeers w key order c.size r)).runIn d).map
          fun values => places.zip values := by
  obtain ⟨places, d, hsorted, horder⟩ := h.sorted hr
  have hsize : (sortedPeers w key order c.size r).length =
      (c.frame.partitionOf (partitionKey w key) r).frame.size :=
    (sortedPeers_perm w key order c.size r).length_eq.trans (Frame.size_take _ _).symm
  exact ⟨places, d, horder, by rw [runIn_partitionResults hsorted, valuesAlong, hsize]⟩

/-- Every row has its result, if the results along the sorted rows of its partition are known. -/
theorem windowResults (h : WindowValues engine w key order sorting c) {p : Expr.CallParts}
    {f : Function} {label : String} (value : Nat → Value) (hw : windowFunction engine w = .ok (p, f))
    (hnone : c.frame.result? label 0 = none)
    (hvalues : ∀ r < c.size, ∀ places d, InOrder w key order sorting c r places d →
      (valuesAlong engine f p w order (sortedPeers w key order c.size r)).runIn d =
          .ok ((sortedPeers w key order c.size r).map value)) :
    ∃ d, Step.windowResults engine (orderBy engine w.order) w label c = .ok ⟨⟩ d ∧
      ∀ r < c.size, d.frame.result? label r = some (value r) := by
  refine windowResults_of_gives hw hnone h.keyed fun r hr => ?_
  obtain ⟨places, d, horder, hresults⟩ := h.exists_inOrder hr p f
  have hvalue : (sortedPeers w key order c.size r).map value =
      places.map (value ∘ fun k => (peers (partitionKey w key) c.size r).getD k 0) := by
    rw [← horder.rows, List.map_map]
  rw [hvalues r hr places d horder, hvalue] at hresults
  exact ⟨_, hresults, .zip_map horder.perm⟩

/-- There is an error if there is one along the sorted rows of some partition. -/
theorem windowResults_error (h : WindowValues engine w key order sorting c) {p : Expr.CallParts}
    {f : Function} (label : String) {P : ExecutionError → Prop}
    (hw : windowFunction engine w = .ok (p, f)) (hnone : c.frame.result? label 0 = none)
    (herror : ∀ r < c.size, ∀ places d, InOrder w key order sorting c r places d → ∀ e,
      (valuesAlong engine f p w order (sortedPeers w key order c.size r)).runIn d = .error e → P e)
    (hr : r < c.size) (hfails : ∀ places d, InOrder w key order sorting c r places d → ∃ e,
      (valuesAlong engine f p w order (sortedPeers w key order c.size r)).runIn d = .error e) :
    ∃ e, (Step.windowResults engine (orderBy engine w.order) w label).runIn c = .error e ∧ P e := by
  obtain ⟨places, d, horder, hresults⟩ := h.exists_inOrder hr p f
  obtain ⟨e, he⟩ := hfails places d horder
  rw [he] at hresults
  refine windowResults_of_error hw hnone h.keyed (fun r' hr' e' he' => ?_) hr hresults
  obtain ⟨places', d', horder', hresults'⟩ := h.exists_inOrder hr' p f
  rw [he'] at hresults'
  refine herror r' hr' places' d' horder' e' ?_
  cases hvalues : (valuesAlong engine f p w order (sortedPeers w key order c.size r')).runIn d' with
  | ok values => rw [hvalues] at hresults'; cases hresults'
  | error e'' => rw [hvalues] at hresults'; cases hresults'; rfl

/-- The places of a sorted partition are those of its members. -/
theorem lt_size_sorting (h : WindowValues engine w key order sorting c) (hr : r < c.size)
    {places : List Nat} (horder : InOrder w key order sorting c r places d) :
    ∀ i ∈ places, i < (sorting r).frame.size := fun _ hi =>
  h.size_sorting hr ▸ List.mem_range.mp (horder.perm.subset hi)

end WindowValues

/-- A call over the rows with the key `k`, by falling amounts. -/
def byFallingAmount (function : Expr) (extent : Extent) : Expr.WindowParts :=
  ⟨function, [.field "k"], [.mk (.field "x") .descending], extent⟩

/-- The values of the fields `k` and `x` of `amounts`. -/
def amountsValue (e : Expr) (i : Nat) : Value :=
  if e.label = "k" then .ofNat (if i = 1 then 2 else 1)
  else .ofNat (if i = 0 then 5 else if i = 1 then 7 else 3)

theorem labelsApart_field (name : String) : Expr.LabelsApart fun q =>
    ∃ e ∈ [Expr.field name], q.Outside Engine.builtin.functions e := by
  rintro q q' ⟨e, he, hq⟩ ⟨e', he', hq'⟩
  exact Expr.labelsApart_of_nodup (l := [.field name]) List.nodup_nil
    (hq.mem (by simp [Expr.operands]) he) (hq'.mem (by simp [Expr.operands]) he')

theorem windowValues_byFallingAmount (function : Expr) (extent : Extent) :
    let w := byFallingAmount function extent
    WindowValues .builtin w amountsValue amountsValue
      (fun r => .ofFrame (amounts.frame.partitionOf (partitionKey w amountsValue) r).frame) amounts := by
  intro w
  have haligned : amounts.Aligned := (Context.Reachable.start.after _).aligned
  have hrows : ∀ i < 3, i = 0 ∨ i = 1 ∨ i = 2 := by omega
  refine .of_window? haligned (List.nodup_singleton _) (labelsApart_field "k")
    (labelsApart_field "x") ?_ ?_ ?_ ?_ ?_
  · exact List.forall_mem_singleton.mpr (.of_field _ "k")
  · exact List.forall_mem_singleton.mpr (.of_field _ "x")
  · exact List.forall_mem_singleton.mpr rfl
  · refine List.forall_mem_singleton.mpr fun i hi => ?_
    obtain rfl | rfl | rfl := hrows i hi
    all_goals rfl
  · refine List.forall_mem_singleton.mpr fun i hi => ?_
    obtain rfl | rfl | rfl := hrows i hi
    all_goals rfl

/-- By falling amounts the first and the last row follow each other, and the row between them is alone. -/
theorem sortedPeers_byFallingAmount (function : Expr) (extent : Extent) {r : Nat} (hr : r < 3) :
    sortedPeers (byFallingAmount function extent) amountsValue amountsValue 3 r =
      if r = 1 then [1] else [0, 2] := by
  show sortPlaces [.descending] (fun i => [amountsValue (.field "x") i])
    (peers (fun i => [amountsValue (.field "k") i]) 3 r) = _
  have hpeers : peers (fun i => [amountsValue (.field "k") i]) 3 r = if r = 1 then [1] else [0, 2] := by
    obtain rfl | rfl | rfl : r = 0 ∨ r = 1 ∨ r = 2 := by omega
    all_goals decide +kernel
  rw [hpeers, sortPlaces]
  refine List.mergeSort_of_pairwise ?_
  split
  all_goals decide +kernel

/-- A call over the rows with the same keys, where these keys share a label inside. -/
def overShared (function : Expr) (extent : Extent) : Expr.WindowParts :=
  ⟨function, sharingLabels, [], extent⟩

theorem aggregateFree_sharingLabels :
    ∀ k ∈ sharingLabels, k.AggregateFree Engine.builtin.functions := by
  let operands : List Expr := [.paren (.isNull (.field "not x") false), .isNull (.field "not x") false,
    .field "not x", .literal (.boolean false), .paren (.unary .not (.isNull (.field "x") false)),
    .unary .not (.isNull (.field "x") false), .isNull (.field "x") false, .field "x",
    .literal (.boolean true)]
  exact fun k hk => .of_callee? (sharingLabels ++ operands)
    (by simp [sharingLabels, operands, Expr.operands])
    (by simp [sharingLabels, operands, Expr.callee?]) (List.mem_append_left _ hk)

/-- What an expression comes to in a row of `twoRows`, if there is a value. -/
def twoRowsValue (e : Expr) (i : Nat) : Value :=
  ((evaluate .builtin e i false).runIn twoRows).toOption.getD .null

theorem runIn_sharingLabels : ∀ k ∈ sharingLabels, ∀ i < 2,
    (evaluate .builtin k i false).runIn twoRows = .ok (twoRowsValue k i) := by
  intro k hk i hi
  obtain rfl | rfl := List.mem_pair.mp hk
  all_goals
    obtain rfl | rfl : i = 0 ∨ i = 1 := by omega
    all_goals rfl

end Step

end TableQuery
