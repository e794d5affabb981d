/-
The rows that share a partition with a row.

A window computes every partition by itself, in a context of its own, and puts each result back into the row
that it belongs to. So a row has in the end what its own partition gives for it, and this partition can be
told without looking at the others: it consists of the rows with the same key, in their order.

* `peers` — the rows of the partition that a row is in;
* `Step.Keyed`, `Step.partitionBy_of_keyed` — rows with keys can be partitioned;
* `Step.windowResults_of_gives`, `Step.windowResults_of_error` — every row has the result that its partition
  gives for it, unless there is an error for a partition.
-/
import TableQuery.Proofs.KeyPartition

namespace TableQuery

/-- The rows whose keys are the same as that of a row, in their order. -/
def peers (key : Nat → List Value) (n r : Nat) : List Nat :=
  (List.range n).filter fun j => Value.sameKeys (key r) (key j)

section Peers

variable {key : Nat → List Value} {n r j : Nat}

@[simp] theorem mem_peers : j ∈ peers key n r ↔ j < n ∧ Value.sameKeys (key r) (key j) = true := by
  rw [peers, List.mem_filter, List.mem_range]

theorem self_mem_peers (hr : r < n) : r ∈ peers key n r := by
  simp [hr, Value.sameKeys_refl]

theorem lt_of_mem_peers (hj : j ∈ peers key n r) : j < n := (mem_peers.mp hj).1

theorem pairwise_peers (key : Nat → List Value) (n r : Nat) : (peers key n r).Pairwise (· < ·) :=
  List.pairwise_lt_range.filter _

/-- Rows with the same key have the same partition. -/
theorem peers_congr (h : j ∈ peers key n r) : peers key n j = peers key n r := by
  refine List.filter_congr fun i _ => ?_
  rw [Value.sameKeys_congr (mem_peers.mp h).2]

end Peers

/-- The partition that a row is in. -/
def Frame.partitionOf (f : Frame) (key : Nat → List Value) (r : Nat) : Group :=
  ⟨(peers key f.size r).toArray, f.take (peers key f.size r)⟩

/-- Every group is the partition of each of its members. -/
theorem Step.eq_partitionOf {f : Frame} {key : Nat → List Value} {g : Group} {r : Nat}
    (hg : g ∈ groupsOfKeys f key) (hr : r ∈ g.members.toList) : g = f.partitionOf key r := by
  obtain ⟨b, hb, rfl⟩ := List.mem_map.mp hg
  have hmembers : b.members.toList = peers key f.size r := by
    rw [(Bucket.hold_ofKeys _).members b hb, Bucket.placesOf_range]
    refine List.filter_congr fun i _ => ?_
    rw [Value.sameKeys_congr ((Bucket.mem_members hb).mp hr).2]
  rw [Frame.partitionOf, ← hmembers]

namespace Step

open Context

variable {engine : Engine} {c d : Context} {keys : List Expr} {key : Nat → List Value}

/-- The rows can be partitioned: keys with different labels have values in every row. -/
structure Keyed (engine : Engine) (keys : List Expr) (key : Nat → List Value) (c : Context) : Prop where
  labels : (keys.map Expr.label).Nodup
  look : ∀ i < c.size, c.InGroup i ∨ ∀ k ∈ keys, k.AggregateFree engine.functions
  values : ∀ i < c.size,
    (Evaluator.values engine (Expr.evaluators engine keys) i false).runIn c = .ok (key i)

/-- Keys with one label make no buckets. -/
theorem nodup_of_buckets {found : List Bucket} (h : buckets engine keys c = .ok found d) :
    (keys.map Expr.label).Nodup := by
  rw [buckets] at h
  cases hlabels : duplicateLabel? [] (keys.map Expr.label) with
  | some label =>
    rw [hlabels] at h
    cases h
  | none => exact (duplicateLabel?_eq_none.mp hlabels).1

/-- Keys have the values that each of them has alone. -/
theorem Keyed.of_evaluate {value : Expr → Nat → Value} (hlabels : (keys.map Expr.label).Nodup)
    (hapart : Expr.LabelsApart fun q => ∃ k ∈ keys, q.Outside engine.functions k)
    (hlook : (∀ i < c.size, c.InGroup i) ∨ ∀ k ∈ keys, k.AggregateFree engine.functions)
    (hvalue : ∀ k ∈ keys, ∀ i < c.size, (evaluate engine k i false).runIn c = .ok (value k i)) :
    Keyed engine keys (fun i => keys.map (value · i)) c where
  labels := hlabels
  look i hi := hlook.imp_left fun hgroups => hgroups i hi
  values i hi := by
    have hlook' : ∀ k ∈ keys, c.InGroup i ∨ k.AggregateFree engine.functions := fun k hk =>
      hlook.imp (fun hgroups => hgroups i hi) fun hfree => hfree k hk
    exact runIn_values_of_evaluate hlook' hapart fun k hk => hvalue k hk i hi

/-- Rows with keys are partitioned by them, and nothing but the partitions is noted. -/
theorem partitionBy_of_keyed (h : Keyed engine keys key c) :
    ∃ d, partitionBy engine keys c = .ok (groupsOfKeys c.frame key) d ∧
      c.frame.Noted (fun _ => True) d.frame := by
  obtain ⟨c', t, hbuckets, hgroups⟩ := buckets_of_values h.labels h.look h.values
  rw [partitionBy, bind_of_ok hbuckets, bind_of_ok hgroups]
  refine ⟨_, rfl, ?_⟩
  rw [← t.frame]
  exact .partitions (fun _ _ => trivial) c'.frame

/-- Rows that were partitioned have keys, and only their partitions were noted. -/
theorem exists_of_partitionBy_eq_ok {groups : List Group}
    (hlook : ∀ i < c.size, c.InGroup i ∨ ∀ k ∈ keys, k.AggregateFree engine.functions)
    (h : partitionBy engine keys c = .ok groups d) :
    ∃ key c', Keyed engine keys key c ∧ groups = groupsOfKeys c.frame key ∧ c.Touched (· < c.size) c' ∧
      d = { c' with
        frame := groups.foldl (fun f g => g.members.foldl (fun f i =>
          f.modifyRow i fun r => { r with partition := some g.frame }) f) c'.frame
        sawPlainColumn := false } := by
  obtain ⟨found, c', hbuckets, h⟩ := exists_of_bind_eq_ok h
  obtain ⟨key, hkey, t, rfl⟩ := exists_of_buckets_eq_ok hlook hbuckets
  obtain ⟨groups', c₂, hgroups, h⟩ := exists_of_bind_eq_ok h
  rw [groupsOf, get_bind] at hgroups
  cases hgroups
  cases h
  refine ⟨key, c', ⟨nodup_of_buckets hbuckets, hlook, hkey⟩, ?_, t, rfl⟩
  rw [t.frame]
  rfl

section Results

variable {w : Expr.WindowParts} {p : Expr.CallParts} {f : Function} {label : String}
  {sort : Step SortOutcome}

/-- A window that is not there yet is computed. -/
theorem windowResults_apply (sort : Step SortOutcome) (hsize : c.size ≠ 0)
    (hnone : c.frame.result? label 0 = none) : windowResults engine sort w label c =
      (lift (windowFunction engine w) >>= fun found => partitionBy engine w.partition >>= fun groups =>
        groups.forM fun g => do
          putResults label g (← lift ((partitionResults engine sort found.2 found.1 w).runIn
            (.ofFrame g.frame)))) c := by
  cases hrow : c.frame.rows[0]? with
  | none => exact absurd (Nat.le_zero.mp (Array.getElem?_eq_none_iff.mp hrow)) hsize
  | some row =>
    have hhas : row.windows.has label = false := by
      rw [Frame.result?, hrow] at hnone
      exact Option.isSome_eq_false_iff.mpr (Option.isNone_iff_eq_none.mpr hnone)
    rw [windowResults, get_bind, hrow]
    simp only [hhas, Bool.false_eq_true, if_false]

/-- Where rows have keys it is computed one partition after the other. -/
theorem windowResults_of_keyed (sort : Step SortOutcome) (hw : windowFunction engine w = .ok (p, f)) (hsize : c.size ≠ 0)
    (hnone : c.frame.result? label 0 = none) (hkeyed : Keyed engine w.partition key c) :
    ∃ c', c'.size = c.size ∧ windowResults engine sort w label c =
      ((groupsOfKeys c.frame key).forM fun g => do
        putResults label g (← lift ((partitionResults engine sort f p w).runIn (.ofFrame g.frame)))) c' := by
  obtain ⟨c', hpartition, hnoted⟩ := partitionBy_of_keyed hkeyed
  have hfunction : lift (windowFunction engine w) c = .ok (p, f) c := by rw [hw]; rfl
  refine ⟨c', hnoted.size, ?_⟩
  rw [windowResults_apply sort hsize hnone, bind_of_ok hfunction, bind_of_ok hpartition]

/-- A group is the partition of its first member. -/
theorem exists_partitionOf {f : Frame} {g : Group} (hg : g ∈ groupsOfKeys f key) :
    ∃ r < f.size, g = f.partitionOf key r := by
  obtain ⟨b, hb, rfl⟩ := List.mem_map.mp hg
  obtain ⟨r, -, hfirst, -⟩ := Bucket.first_eq hb
  have hr : r ∈ b.members.toList := Array.mem_toList_iff.mpr (Array.mem_of_getElem? hfirst)
  exact ⟨r, ((Bucket.mem_members hb).mp hr).1, eq_partitionOf hg hr⟩

/-- Every row is in the group that is its partition. -/
theorem partitionOf_mem {f : Frame} {r : Nat} (hr : r < f.size) :
    f.partitionOf key r ∈ groupsOfKeys f key := by
  obtain ⟨b, hb, hmem⟩ := (Bucket.hold_ofKeys ((List.range f.size).map key)).exists_mem (i := r)
    (by simpa using hr)
  have hg : Group.mk b.members (f.take b.members.toList) ∈ groupsOfKeys f key := List.mem_map_of_mem hb
  exact eq_partitionOf hg hmem ▸ hg

/-- Every row has the result that its partition gives for it. -/
theorem windowResults_of_gives {value : Nat → Value} (hw : windowFunction engine w = .ok (p, f))
    (hnone : c.frame.result? label 0 = none) (hkeyed : Keyed engine w.partition key c)
    (hgives : ∀ r < c.size, ∃ results,
      (partitionResults engine sort f p w).runIn (.ofFrame (c.frame.partitionOf key r).frame) =
        .ok results ∧ (c.frame.partitionOf key r).Gives value results) :
    ∃ d, windowResults engine sort w label c = .ok ⟨⟩ d ∧
      ∀ r < c.size, d.frame.result? label r = some (value r) := by
  by_cases hsize : c.size = 0
  · have hrow : c.frame.rows[0]? = none := Array.getElem?_eq_none (Nat.le_of_eq hsize)
    refine ⟨c, ?_, fun r hr => by omega⟩
    rw [windowResults, get_bind, hrow]
    rfl
  obtain ⟨c', hsize', hwindow⟩ := windowResults_of_keyed sort hw hsize hnone hkeyed
  have hdisjoint : (groupsOfKeys c.frame key).Pairwise
      fun g h => ∀ i ∈ g.members.toList, i ∉ h.members.toList :=
    List.pairwise_map.mpr (Bucket.hold_ofKeys ((List.range c.size).map key)).disjoint
  have hall : ∀ g ∈ groupsOfKeys c.frame key, ∃ results,
      (partitionResults engine sort f p w).runIn (.ofFrame g.frame) = .ok results ∧
        g.Gives value results := by
    intro g hg
    obtain ⟨r, hr, rfl⟩ := exists_partitionOf hg
    exact hgives r hr
  obtain ⟨d, hforM, -, hvalue⟩ := @forM_putResults label _ _ (fun _ => value) hall
    hdisjoint c'
  refine ⟨d, hwindow.trans hforM, fun r hr => ?_⟩
  have hmem : r ∈ (c.frame.partitionOf key r).members.toList := self_mem_peers (n := c.frame.size) hr
  exact hvalue _ (partitionOf_mem hr) r (hsize'.symm ▸ hr) hmem

/-- Once there are no results for a group, there are none for the rows. -/
theorem forM_putResults_error (label : String) {groups : List Group} {P : ExecutionError → Prop}
    {results : Group → Except ExecutionError (List (Nat × Value))}
    (herror : ∀ g ∈ groups, ∀ e, results g = .error e → P e)
    (hfails : ∃ g ∈ groups, ∃ e, results g = .error e) (c : Context) :
    ∃ e d, (groups.forM fun g => do putResults label g (← lift (results g))) c = .error e d ∧ P e := by
  induction groups generalizing c with
  | nil => simp at hfails
  | cons g groups ih =>
    cases hg : results g with
    | error e =>
      have hfirst : (do putResults label g (← lift (results g))) c = .error e c := by
        rw [hg]
        rfl
      exact ⟨e, c, bind_of_error hfirst, herror g List.mem_cons_self e hg⟩
    | ok found =>
      have hrest : ∃ g ∈ groups, ∃ e, results g = .error e := by
        obtain ⟨g', hg', e, he⟩ := hfails
        rcases List.mem_cons.mp hg' with rfl | hg'
        · rw [hg] at he
          cases he
        · exact ⟨g', hg', e, he⟩
      have hfirst : (do putResults label g (← lift (results g))) c = putResults label g found c := by
        rw [hg]
        rfl
      obtain ⟨e, d, he, hP⟩ := ih (fun g' hg' => herror g' (List.mem_cons_of_mem g hg')) hrest _
      exact ⟨e, d, (bind_of_ok (hfirst.trans rfl)).trans he, hP⟩

/-- If there are no results for the partition of a row, there is such an error as partitions give. -/
theorem windowResults_of_error {P : ExecutionError → Prop} (hw : windowFunction engine w = .ok (p, f))
    (hnone : c.frame.result? label 0 = none) (hkeyed : Keyed engine w.partition key c)
    (herror : ∀ r < c.size, ∀ e, (partitionResults engine sort f p w).runIn
      (.ofFrame (c.frame.partitionOf key r).frame) = .error e → P e) {r : Nat} (hr : r < c.size)
    {e : ExecutionError} (he : (partitionResults engine sort f p w).runIn
      (.ofFrame (c.frame.partitionOf key r).frame) = .error e) :
    ∃ e, (windowResults engine sort w label).runIn c = .error e ∧ P e := by
  obtain ⟨c', -, hwindow⟩ := windowResults_of_keyed sort hw (by omega) hnone hkeyed
  have hgroups : ∀ g ∈ groupsOfKeys c.frame key, ∀ e,
      (partitionResults engine sort f p w).runIn (.ofFrame g.frame) = .error e → P e := by
    intro g hg
    obtain ⟨r', hr', rfl⟩ := exists_partitionOf hg
    exact herror r' hr'
  obtain ⟨e', d, hforM, hP⟩ := forM_putResults_error label hgroups
    ⟨_, partitionOf_mem hr, e, he⟩ c'
  exact ⟨e', runIn_eq_error.mpr ⟨d, hwindow.trans hforM⟩, hP⟩

end Results

end Step

end TableQuery
