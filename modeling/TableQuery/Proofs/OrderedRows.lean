/-
Rows in order.

Sorting evaluates the items in every row before any row is moved, and then moves each row with all that is
known about it. As long as labels tell apart what is evaluated for the items, each item has the value that
it has alone, so that rows are in the order of these values; and rows that are in order are left where they
are, since what was remembered about a row goes along with it.

* `StablySorted` — what it means that places are in a stable order (`stablySorted_sortPlaces`);
* `Frame.Rearranged` — a frame whose rows stand at other places (`Frame.rearranged_take`);
* `Step.sortRows_of_values` — what sorting leaves, if the items have values in every row;
* `Step.orderBy_sorts` — the rows in their new order, and in the same order when they are sorted again.
-/
import TableQuery.Proofs.KeyPartition
import TableQuery.Proofs.RowOrder

namespace TableQuery

/-- The places of the first `n` rows in the order of their keys. Rows whose keys are level stay in their
order. -/
structure StablySorted (directions : List Direction) (key : Nat → List Value) (n : Nat)
    (places : List Nat) : Prop where
  perm : places.Perm (List.range n)
  ordered : places.Pairwise fun i j => compareKeys directions (key i) (key j) ≠ .gt
  stable : places.Pairwise fun i j => compareKeys directions (key i) (key j) = .eq → i < j

section Places

variable {directions : List Direction} {key : Nat → List Value} {n : Nat} {places : List Nat}

theorem stablySorted_sortPlaces (hkey : ∀ i, (key i).length = directions.length) (n : Nat) :
    StablySorted directions key n (sortPlaces directions key (List.range n)) where
  perm := sortPlaces_perm directions key (List.range n)
  ordered := ordered_sortPlaces hkey (List.range n)
  stable := level_sortPlaces hkey n

/-- There is only one stable order. -/
theorem StablySorted.unique {places' : List Nat} (h : StablySorted directions key n places)
    (h' : StablySorted directions key n places') : places = places' := by
  refine List.Perm.eq_of_pairwise ?_ (h.ordered.and h.stable) (h'.ordered.and h'.stable)
    (h.perm.trans h'.perm.symm)
  intro i j _ _ hij hji
  have hswap := compareKeys_swap directions (key j) (key i)
  -- keys that are in order both ways are level, and then each row would stand before the other
  cases hcompare : compareKeys directions (key i) (key j) with
  | gt => exact absurd hcompare hij.1
  | lt => rw [hcompare] at hswap; exact absurd hswap hji.1
  | eq => rw [hcompare] at hswap; exact absurd (hij.2 hcompare) (Nat.lt_asymm (hji.2 hswap))

theorem StablySorted.length_eq (h : StablySorted directions key n places) : places.length = n := by
  simpa using h.perm.length_eq

theorem StablySorted.lt (h : StablySorted directions key n places) {i : Nat} (hi : i ∈ places) : i < n :=
  List.mem_range.mp (h.perm.subset hi)

/-- Rows that have been sorted are in order. -/
theorem StablySorted.sortPlaces_range (h : StablySorted directions key n places) :
    sortPlaces directions (fun k => key (places.getD k 0)) (List.range n) = List.range n := by
  have hordered := h.ordered
  rw [← places.map_id, ← Step.map_range_getD places id, h.length_eq, List.pairwise_map] at hordered
  refine List.mergeSort_of_pairwise (hordered.imp ?_)
  intro i j hij
  exact bne_iff_ne.mpr hij

end Places

/-- The key of a row, by what expressions come to there. -/
def sortKey (items : List OrderItem) (value : Expr → Nat → Value) (i : Nat) : List Value :=
  (items.map OrderItem.expr).map (value · i)

/-- The rows of the second frame are rows of the first, each from the given place, in every view and with
all that is known about them. -/
structure Frame.Rearranged (places : List Nat) (f g : Frame) : Prop where
  size : g.size = places.length
  views : List.Forall₂ (fun p q : String × View => q.1 = p.1 ∧ q.2.fields = p.2.fields ∧
    q.2.size = places.length ∧ ∀ k i : Nat, places[k]? = some i → q.2.rows[k]? = p.2.rows[i]?)
    f.views g.views
  rows : ∀ k i : Nat, places[k]? = some i → g.rows[k]? = f.rows[i]?

theorem Frame.rearranged_take {f : Frame} (hf : f.Aligned) {places : List Nat}
    (hplaces : ∀ i ∈ places, i < f.size) : f.Rearranged places (f.take places) where
  size := f.size_take places
  views := by
    refine List.forall₂_map_right_iff.mpr (List.forall₂_same.mpr fun p hp => ?_)
    have hrows : places.filterMap (p.2.rows[·]?) = places.map fun i => p.2.rows.getD i .empty := by
      refine List.filterMap_eq_map_iff_forall_eq_some.mpr fun i hi => ?_
      have hlt : i < p.2.rows.size := (hplaces i hi).trans_eq (hf p hp).symm
      simp [hlt]
    refine ⟨rfl, rfl, ?_, fun k i hk => ?_⟩
    · simp [View.take, View.size, hrows]
    · have hlt : i < p.2.rows.size := (hplaces i (List.mem_of_getElem? hk)).trans_eq (hf p hp).symm
      simp [View.take, hrows, hk, hlt]
  rows k i hk := f.getElem?_rows_take hk (hplaces i (List.mem_of_getElem? hk))

namespace Step

open Context

variable {engine : Engine} {c d : Context} {items : List OrderItem}

/-- Sorting puts the rows in the order of what the items come to, each as it is left when the items are
evaluated in it alone. -/
theorem sortRows_of_values {key : Nat → List Value}
    (hlook : ∀ i < c.size, c.InGroup i ∨ ∀ e ∈ items.map OrderItem.expr, e.AggregateFree engine.functions)
    (hkey : ∀ i < c.size, (Evaluator.values engine (Expr.evaluators engine (items.map OrderItem.expr)) i
      false).runIn c = .ok (key i)) {places : List Nat}
    (hplaces : sortPlaces (items.map OrderItem.direction) key (List.range c.size) = places) :
    ∃ c', c.Touched (· < c.size) c' ∧
      (∀ i < c.size, ∀ xs e, Evaluator.values engine (Expr.evaluators engine (items.map OrderItem.expr)) i
        false c = .ok xs e → e.SameRow i i c') ∧
      sortRows engine items c =
        .ok ⟨places, places.map key⟩ { c'.reorder places with sawPlainColumn := false } := by
  have hrows := (local_values engine (items.map OrderItem.expr) false).rows hlook
  rw [mapM_eq_ok fun i hi => hkey i (List.mem_range.mp hi)] at hrows
  obtain ⟨c', hrows, t, hstates⟩ := hrows.eq_ok
  -- the keys in order, each with the place of its row
  let sorted := sortKeys (items.map OrderItem.direction) ((List.range c.size).map key)
  have hsorted : ∀ p ∈ sorted, p.2 < c.size ∧ p.1 = key p.2 := by
    intro p hp
    have hget := List.mem_zipIdx_iff_getElem?.mp ((List.mergeSort_perm _ _).subset hp)
    rw [List.getElem?_map] at hget
    obtain ⟨i, hi, hkey⟩ := Option.map_eq_some_iff.mp hget
    obtain ⟨hlt, rfl⟩ := List.getElem?_eq_some_iff.mp hi
    simp only [List.length_range] at hlt
    simpa [hlt] using hkey.symm
  have hsnd : sorted.map Prod.snd = places := by
    rw [← hplaces, ← sortKeys_map_snd, List.map_map]
    refine List.map_congr_left fun p hp => ?_
    simp [(hsorted p hp).1]
  have hfst : sorted.map Prod.fst = places.map key := by
    rw [← hsnd, List.map_map]
    exact List.map_congr_left fun p hp => (hsorted p hp).2
  refine ⟨c', t, hstates, ?_⟩
  have htake : ((List.range c.size).map key).toArray.toList.take c'.size =
      (List.range c.size).map key := List.take_of_length_le (by simp [t.size])
  rw [sortRows, bind_of_ok hrows, get_bind, htake, ← hfst, ← hsnd]
  rfl

/-- A sorted row is one of the rows before, of which only its items were evaluated. -/
theorem sameRow_sorted {places : List Nat} {c' : Context} (hc : c.Aligned)
    (t : c.Touched (· < c.size) c') (hlt : ∀ i ∈ places, i < c.size) {k i : Nat}
    (hk : places[k]? = some i) {e : Context} (hstate : e.SameRow i i c') :
    Context.SameRow k i { c'.reorder places with sawPlainColumn := false } e := by
  have hlt' : ∀ i ∈ places, i < c'.size := fun i hi => t.size ▸ hlt i hi
  exact ((SameRow.reorder (t.aligned hc) hlt' hk).note false c'.sawPlainColumn).trans hstate.symm

/-- A sorted row comes to the same when its items are evaluated again. -/
theorem values_sorted {exprs : List Expr} {k i : Nat} {xs : List Value} {e : Context}
    (hlook : ∀ q ∈ exprs, c.InGroup i ∨ q.AggregateFree engine.functions)
    (hlook' : d.InGroup k ∨ ∀ q ∈ exprs, q.AggregateFree engine.functions)
    (hlabels : Expr.LabelsApart fun q => ∃ p ∈ exprs, q.Outside engine.functions p)
    (hxs : Evaluator.values engine (Expr.evaluators engine exprs) i false c = .ok xs e)
    (hrow : Context.SameRow k i d e) :
    (Evaluator.values engine (Expr.evaluators engine exprs) k false).runIn d = .ok xs := by
  have hrepeats := repeats_values (b := false) hlook hlabels
  obtain ⟨hresult, hsound⟩ := (hrepeats c .initial).of_ok hxs
  rw [(local_values engine exprs false).runIn_eq hlook' hrow, (hrepeats e hsound).runIn, hresult]

/-- The rows of the second context are those of the first at the given places, each as it is left when the items
are evaluated in it alone. -/
structure Settled (engine : Engine) (items : List OrderItem) (key : Nat → List Value) (places : List Nat)
    (c d : Context) : Prop where
  frame : d.frame = c.frame.take places
  size_memo : d.memo.size = places.length
  row : ∀ k i : Nat, places[k]? = some i → ∃ e, Evaluator.values engine
    (Expr.evaluators engine (items.map OrderItem.expr)) i false c = .ok (key i) e ∧ d.SameRow k i e

section Values

variable {value : Expr → Nat → Value} {places : List Nat}
  (hc : c.Aligned)
  (hlook : (∀ i < c.size, c.InGroup i) ∨ ∀ e ∈ items.map OrderItem.expr, e.AggregateFree engine.functions)
  (hlabels : Expr.LabelsApart fun q =>
    ∃ e ∈ items.map OrderItem.expr, q.Outside engine.functions e)
  (hvalue : ∀ e ∈ items.map OrderItem.expr, ∀ i < c.size,
    (evaluate engine e i false).runIn c = .ok (value e i))

include hc hlook hlabels hvalue

/-- Sorting by values of the items settles the rows. -/
theorem exists_settled (hplaces : sortPlaces (items.map OrderItem.direction) (sortKey items value)
    (List.range c.size) = places) : ∃ d, sortRows engine items c =
      .ok ⟨places, places.map (sortKey items value)⟩ d ∧
        Settled engine items (sortKey items value) places c d := by
  have hlt : ∀ i ∈ places, i < c.size := fun i hi =>
    List.mem_range.mp ((sortPlaces_perm _ _ _).subset (hplaces ▸ hi))
  have hkey : ∀ i < c.size, (Evaluator.values engine (Expr.evaluators engine
      (items.map OrderItem.expr)) i false).runIn c = .ok (sortKey items value i) := fun i hi =>
    runIn_values_of_evaluate (fun e he => hlook.imp (fun hgroups => hgroups i hi) fun hfree => hfree e he)
      hlabels fun e he => hvalue e he i hi
  obtain ⟨c', t, hstates, hsort⟩ :=
    sortRows_of_values (fun i hi => hlook.imp_left fun hgroups => hgroups i hi) hkey hplaces
  refine ⟨_, hsort, ?_, size_memo_reorder c' places, fun k i hk => ?_⟩
  · rw [← t.frame]
    rfl
  · have hi : i < c.size := hlt i (List.mem_of_getElem? hk)
    obtain ⟨e, he⟩ := runIn_eq_ok.mp (hkey i hi)
    exact ⟨e, he, sameRow_sorted hc t hlt hk (hstates i hi _ e he)⟩

omit hc hvalue in
/-- The items of a row were evaluated in this row only, and what was remembered of it is still there. -/
theorem sound_of_values {i : Nat} (hi : i < c.size) {xs : List Value} {e : Context}
    (h : Evaluator.values engine (Expr.evaluators engine (items.map OrderItem.expr)) i false c = .ok xs e) :
    Sound engine (fun q => ∃ e ∈ items.map OrderItem.expr, q.Outside engine.functions e) false i c e :=
  ((repeats_values (fun e he => hlook.imp (fun hgroups => hgroups i hi) fun hfree => hfree e he) hlabels c
    .initial).of_ok h).2

omit hc hvalue in
/-- Settled rows that are sorted again stay where they are. -/
theorem exists_sortRows_of_settled
    (hsorted : StablySorted (items.map OrderItem.direction) (sortKey items value) c.size places)
    (h : Settled engine items (sortKey items value) places c d) :
    ∃ d', sortRows engine items d = .ok ⟨List.range c.size, places.map (sortKey items value)⟩ d' := by
  have hsize : d.size = c.size := by rw [Context.size, h.frame, Frame.size_take, hsorted.length_eq]
  have hrow : ∀ k < d.size, ∃ i < c.size, places.getD k 0 = i ∧ places[k]? = some i := by
    intro k hk
    have hlt : k < places.length := by rwa [hsorted.length_eq, ← hsize]
    exact ⟨places[k], hsorted.lt (List.getElem_mem hlt), by simp [hlt], List.getElem?_eq_getElem hlt⟩
  have hlook' : ∀ k < d.size, d.InGroup k ∨
      ∀ e ∈ items.map OrderItem.expr, e.AggregateFree engine.functions := by
    intro k hk
    obtain ⟨i, hi, -, hplace⟩ := hrow k hk
    obtain ⟨e, he, s⟩ := h.row k i hplace
    refine hlook.imp_left fun hgroups => s.symm.inGroup ?_
    rw [InGroup, (sound_of_values hlook hlabels hi he).touched.frame]
    exact hgroups i hi
  have hkey : ∀ k < d.size, (Evaluator.values engine (Expr.evaluators engine
      (items.map OrderItem.expr)) k false).runIn d = .ok (sortKey items value (places.getD k 0)) := by
    intro k hk
    obtain ⟨i, hi, hget, hplace⟩ := hrow k hk
    obtain ⟨e, he, s⟩ := h.row k i hplace
    rw [hget]
    exact values_sorted (fun e he => hlook.imp (fun hgroups => hgroups i hi) fun hfree => hfree e he)
      (hlook' k hk) hlabels he s
  -- the keys that come out are those of the sorted rows, in order already
  have hkeys : (List.range c.size).map (fun k => sortKey items value (places.getD k 0)) =
      places.map (sortKey items value) := by
    rw [← hsorted.length_eq]
    exact map_range_getD places (sortKey items value)
  obtain ⟨d', -, -, hagain⟩ := sortRows_of_values hlook' hkey (hsize.symm ▸ hsorted.sortPlaces_range)
  rw [hsize, hkeys] at hagain
  exact ⟨_, hagain⟩

end Values

/-- Sorting puts the rows in the order of what their items come to. Every row moves with all that is known
about it and with what is remembered, to which the values of the items have been added, and rows that are
sorted again stay where they are. -/
theorem orderBy_sorts (value : Expr → Nat → Value) (hc : c.Aligned)
    (hwindows : ∀ item ∈ items, item.expr.window? = none)
    (hlook : (∀ i < c.size, c.InGroup i) ∨
      ∀ e ∈ items.map OrderItem.expr, e.AggregateFree engine.functions)
    (hlabels : Expr.LabelsApart fun q =>
      ∃ e ∈ items.map OrderItem.expr, q.Outside engine.functions e)
    (hvalue : ∀ e ∈ items.map OrderItem.expr, ∀ i < c.size,
      (evaluate engine e i false).runIn c = .ok (value e i)) :
    ∃ outcome d, orderBy engine items c = .ok outcome d ∧
      StablySorted (items.map OrderItem.direction) (sortKey items value) c.size outcome.permutation ∧
      outcome.keys = outcome.permutation.map (sortKey items value) ∧
      c.frame.Rearranged outcome.permutation d.frame ∧ d.memo.size = c.size ∧
      (∀ k i : Nat, outcome.permutation[k]? = some i →
        (∃ e, evaluateAll engine (items.map OrderItem.expr) i false c = .ok (sortKey items value i) e ∧
          d.memo[k]? = e.memo[i]?) ∧
        ∀ label v, c.held? i label = some v → d.held? k label = some v) ∧
      ∃ d', orderBy engine items d = .ok ⟨List.range c.size, outcome.keys⟩ d' := by
  have hsort : ∀ c, orderBy engine items c = sortRows engine items c := by
    intro c
    rw [orderBy, computeOrderWindows_of_window? hwindows]
    rfl
  have hsorted : StablySorted (items.map OrderItem.direction) (sortKey items value) c.size _ :=
    stablySorted_sortPlaces (fun i => by simp [sortKey]) c.size
  generalize hplaces : sortPlaces (items.map OrderItem.direction) (sortKey items value) (List.range c.size) =
    places at hsorted
  obtain ⟨d, hfirst, hsettled⟩ := exists_settled hc hlook hlabels hvalue hplaces
  obtain ⟨d', hagain⟩ := exists_sortRows_of_settled hlook hlabels hsorted hsettled
  refine ⟨_, d, (hsort c).trans hfirst, hsorted, rfl, ?_, hsettled.size_memo.trans hsorted.length_eq,
    fun k i hk => ?_, d', (hsort d).trans hagain⟩
  · rw [hsettled.frame]
    exact Frame.rearranged_take hc.frame fun _ => hsorted.lt
  · have hi : i < c.size := hsorted.lt (List.mem_of_getElem? hk)
    obtain ⟨e, he, s⟩ := hsettled.row k i hk
    refine ⟨⟨e, he, s.memo⟩, fun label v hv => ?_⟩
    have hkept := (sound_of_values hlook hlabels hi he).kept label v hv
    rwa [held?, ← s.memo] at hkept

/-- By descending keys `k`, and by `x + 1` under the same key. -/
def byKeyAndNext : List OrderItem :=
  [.mk (.field "k") .descending, .mk (.binary .add (.field "x") (.literal (.ofNat 1))) .ascending]

/-- The values that the items have in the rows of `amounts`. -/
def byKeyAndNextValue : Expr → Nat → Value
  | .field _, i => .ofNat (if i = 1 then 2 else 1)
  | _, i => .ofNat (if i = 0 then 6 else if i = 1 then 8 else 4)

theorem orderBy_sorts_amounts : ∃ keys d, orderBy .builtin byKeyAndNext amounts =
      .ok ⟨[1, 2, 0], keys⟩ d ∧ amounts.frame.Rearranged [1, 2, 0] d.frame ∧
    ∃ d', orderBy .builtin byKeyAndNext d = .ok ⟨[0, 1, 2], keys⟩ d' := by
  let next : Expr := .binary .add (.field "x") (.literal (.ofNat 1))
  let evaluated : List Expr := [.field "k", next, .field "x", .literal (.ofNat 1)]
  have hfree : ∀ e ∈ evaluated, e.AggregateFree Engine.builtin.functions := fun e =>
    .of_callee? _ (by simp [evaluated, next, Expr.operands]) (by simp [evaluated, next, Expr.callee?])
  have hmem : ∀ e ∈ byKeyAndNext.map OrderItem.expr, e ∈ evaluated := by
    simp [byKeyAndNext, OrderItem.expr, evaluated, next]
  have hlabels : Expr.LabelsApart fun q => ∃ e ∈ byKeyAndNext.map OrderItem.expr,
      q.Outside Engine.builtin.functions e := by
    have hapart : Expr.LabelsApart (· ∈ evaluated) := Expr.labelsApart_of_nodup (by decide +kernel)
    have hin : ∀ q, (∃ e ∈ byKeyAndNext.map OrderItem.expr, q.Outside Engine.builtin.functions e) →
        q ∈ evaluated := by
      rintro q ⟨e, he, hq⟩
      exact hq.mem (by simp [evaluated, next, Expr.operands]) (hmem e he)
    exact fun _ _ he he' => hapart (hin _ he) (hin _ he')
  have hvalue : ∀ e ∈ byKeyAndNext.map OrderItem.expr, ∀ i < 3,
      (evaluate .builtin e i false).runIn amounts = .ok (byKeyAndNextValue e i) := by
    intro e he i hi
    obtain rfl | rfl : e = .field "k" ∨ e = next := List.mem_pair.mp he
    all_goals
      obtain rfl | rfl | rfl : i = 0 ∨ i = 1 ∨ i = 2 := by omega
      all_goals rfl
  have haligned : amounts.Aligned := (Context.Reachable.start.after _).aligned
  obtain ⟨⟨permutation, keys⟩, d, horder, hsorted, -, hframe, -, -, hagain⟩ :=
    orderBy_sorts byKeyAndNextValue haligned
      (by simp [byKeyAndNext, OrderItem.expr]; exact ⟨rfl, rfl⟩) (.inr fun e he => hfree e (hmem e he))
      hlabels hvalue
  obtain rfl : permutation = [1, 2, 0] := hsorted.unique
    ⟨by decide, by decide +kernel, by decide +kernel⟩
  exact ⟨keys, d, horder, hframe, hagain⟩

/-- By whether the field `not x` is Null, and by whether `x` is not Null, both under one label. -/
def bySharedLabel : List OrderItem :=
  [.mk (.isNull (.field "not x") false) .ascending,
    .mk (.unary .not (.isNull (.field "x") false)) .descending]

/-- Items may share a label. Then the second of them takes the value of the first for its own, and rows stand
in the order of a key that is not theirs. -/
theorem not_forall_orderBy_sorts : ¬ ∀ (c : Context) (items : List OrderItem) (value : Expr → Nat → Value),
    c.Reachable .builtin → (∀ item ∈ items, item.expr.window? = none) →
    (∀ e ∈ items.map OrderItem.expr, e.AggregateFree Engine.builtin.functions) →
    (∀ e ∈ items.map OrderItem.expr, ∀ i < c.size,
      (evaluate .builtin e i false).runIn c = .ok (value e i)) →
    ∃ outcome d, orderBy .builtin items c = .ok outcome d ∧
      StablySorted (items.map OrderItem.direction) (sortKey items value) c.size outcome.permutation ∧
      outcome.keys = outcome.permutation.map (sortKey items value) := by
  intro h
  let value (e : Expr) (i : Nat) : Value :=
    ((evaluate .builtin e i false).runIn twoRows).toOption.getD .null
  let evaluated : List Expr := [.isNull (.field "not x") false, .field "not x",
    .unary .not (.isNull (.field "x") false), .isNull (.field "x") false, .field "x"]
  have hfree : ∀ e ∈ bySharedLabel.map OrderItem.expr, e.AggregateFree Engine.builtin.functions := by
    intro e he
    refine .of_callee? evaluated (by simp [evaluated, Expr.operands]) (by simp [evaluated, Expr.callee?]) ?_
    obtain rfl | rfl := List.mem_pair.mp he <;> simp [evaluated, OrderItem.expr]
  have hvalue : ∀ e ∈ bySharedLabel.map OrderItem.expr, ∀ i < 2,
      (evaluate .builtin e i false).runIn twoRows = .ok (value e i) := by
    intro e he i hi
    obtain rfl | rfl := List.mem_pair.mp he
    all_goals
      obtain rfl | rfl : i = 0 ∨ i = 1 := by omega
      all_goals rfl
  obtain ⟨outcome, d, horder, hsorted, hkeys⟩ := h twoRows bySharedLabel value
    (Context.Reachable.start.after _) (by simp [bySharedLabel, OrderItem.expr]; exact ⟨rfl, rfl⟩) hfree hvalue
  -- in both rows the second item takes the value of the first
  have hcode : ∀ i < 2, (Evaluator.values .builtin (Expr.evaluators .builtin
      (bySharedLabel.map OrderItem.expr)) i false).runIn twoRows =
        .ok [.boolean true, .boolean true] := by
    intro i hi
    obtain rfl | rfl : i = 0 ∨ i = 1 := by omega
    all_goals rfl
  obtain ⟨c', -, -, hsort⟩ := sortRows_of_values (c := twoRows) (fun _ _ => .inr hfree) hcode rfl
  cases horder.symm.trans hsort
  have hfirst : [.boolean true, .boolean true] = sortKey bySharedLabel value 0 :=
    List.map_inj_left.mp hkeys 0 (hsorted.perm.symm.subset (List.mem_range.mpr (by decide +kernel)))
  have hkey : sortKey bySharedLabel value 0 = [.boolean true, .boolean false] := rfl
  rw [hkey] at hfirst
  simp at hfirst

end Step

end TableQuery
