/-
Windows are computed for every row.

Rows that have results of the same windows still do after one more window is computed, for a window is
computed in all rows or in none. This takes that no aggregate turns the rows of a partition into one:
either the rows are groups, or what windows are partitioned and sorted by calls no aggregate function
(`Expr.Unaggregated`).

* `Frame.HasResults`, `Frame.Agrees` — rows that have the result of a window, all of them or none;
* `Step.safe_partitionResults` — a partition has a result for each of its rows;
* `Step.safe_computeWindow` — every row has the result of its partition.
-/
import TableQuery.Proofs.Parentheses
import TableQuery.Proofs.Safety
import TableQuery.Proofs.Uniform
import TableQuery.Proofs.WholePartition

namespace TableQuery

/-! ### Results in rows -/

namespace Frame

variable {f g h : Frame} {label other : String} {places : List Nat} {i : Nat}

/-- All rows have the result of a window. -/
def HasResults (f : Frame) (label : String) : Prop := ∀ i < f.size, (f.result? label i).isSome

/-- A window of which one row has the result has one in every row. -/
def Agrees (f : Frame) : Prop :=
  ∀ label, ∀ i < f.size, (f.result? label i).isSome → f.HasResults label

/-- The second frame is the first with more results of windows, and maybe other partitions. -/
structure Gains (f g : Frame) : Prop where
  noted : f.Noted (fun _ => True) g
  results : ∀ label i, (f.result? label i).isSome → (g.result? label i).isSome

theorem Gains.refl (f : Frame) : f.Gains f := ⟨.refl _ f, fun _ _ h => h⟩

theorem Gains.trans (s : f.Gains g) (t : g.Gains h) : f.Gains h :=
  ⟨s.noted.trans t.noted, fun label i hi => t.results label i (s.results label i hi)⟩

theorem Gains.size (s : f.Gains g) : g.size = f.size := s.noted.size

theorem HasResults.gains (hf : f.HasResults label) (s : f.Gains g) : g.HasResults label :=
  fun i hi => s.results label i (hf i (s.size ▸ hi))

/-- One more window that is computed for all rows. -/
theorem Agrees.gains (hf : f.Agrees) (s : f.Gains g) (hlabel : g.HasResults label)
    (hother : ∀ other, other ≠ label → ∀ i, g.result? other i = f.result? other i) : g.Agrees := by
  intro other i hi h
  by_cases hne : other = label
  · exact hne ▸ hlabel
  · rw [hother other hne] at h
    exact (hf other i (s.size ▸ hi) h).gains s

theorem result?_take (f : Frame) (places : List Nat) (label : String) (i : Nat) :
    (f.take places).result? label i = (places[i]?).bind (f.result? label) :=
  Context.state_take rfl f places i

theorem HasResults.take (hf : f.HasResults label) (hp : ∀ p ∈ places, p < f.size) :
    (f.take places).HasResults label := by
  intro i hi
  rw [size_take] at hi
  rw [result?_take, List.getElem?_eq_getElem hi]
  exact hf _ (hp _ (List.getElem_mem hi))

theorem Agrees.take (hf : f.Agrees) (hp : ∀ p ∈ places, p < f.size) : (f.take places).Agrees := by
  intro label i hi h
  rw [size_take] at hi
  rw [result?_take, List.getElem?_eq_getElem hi] at h
  exact (hf label _ (hp _ (List.getElem_mem hi)) h).take hp

theorem lt_size_of_result? (hi : (f.result? label i).isSome) : i < f.size := by
  rw [result?] at hi
  by_contra hlt
  rw [Array.getElem?_eq_none (Nat.le_of_not_lt hlt)] at hi
  cases hi

/-- Changes of a row that leave the results of windows alone. -/
theorem result?_modifyRow (f : Frame) (k : Nat) {change : RowState Frame → RowState Frame}
    (h : ∀ r, (change r).windows = r.windows) (label : String) (i : Nat) :
    (f.modifyRow k change).result? label i = f.result? label i := by
  rw [result?, result?, modifyRow, Array.getElem?_modify]
  split
  · rw [Option.bind_map]
    exact congrArg (Option.bind _) (funext fun r => congrArg (·.get? label) (h r))
  · rfl

/-- Partitions that are noted leave the results of windows alone. -/
theorem result?_partitions (groups : List Group) (f : Frame) (label : String) (i : Nat) :
    (groups.foldl (fun f g => g.members.foldl (fun f i =>
      f.modifyRow i fun r => { r with partition := some g.frame }) f) f).result? label i =
      f.result? label i := by
  have hmembers : ∀ (g : Frame) (members : List Nat) (f : Frame), (members.foldl (fun f i =>
      f.modifyRow i fun r => { r with partition := some g }) f).result? label i =
        f.result? label i := by
    intro g members
    induction members with
    | nil => exact fun _ => rfl
    | cons k members ih =>
      intro f
      rw [List.foldl_cons, ih]
      exact f.result?_modifyRow k (by exact fun _ => rfl) label i
  induction groups generalizing f with
  | nil => rfl
  | cons g groups ih =>
    rw [List.foldl_cons, ih, ← Array.foldl_toList]
    exact hmembers g.frame g.members.toList f

/-- A result is noted under its own label only. -/
theorem result?_noteResult_of_ne (hne : other ≠ label) (members : Array Nat) (f : Frame)
    (r : Nat × Value) (i : Nat) :
    (f.noteResult label members r).result? other i = f.result? other i := by
  rw [noteResult]
  split
  · rename_i k _
    rw [result?, result?, modifyRow, Array.getElem?_modify]
    split
    · rw [Option.bind_map]
      exact congrArg (Option.bind _) (funext fun row => row.windows.get?_put_ne _ hne)
    · rfl
  · rfl

theorem result?_foldl_noteResult_of_ne (hne : other ≠ label) (members : Array Nat)
    (results : List (Nat × Value)) (f : Frame) (i : Nat) :
    (results.foldl (noteResult label members) f).result? other i = f.result? other i := by
  induction results generalizing f with
  | nil => rfl
  | cons r results ih => rw [List.foldl_cons, ih, result?_noteResult_of_ne hne]

/-- A row has a result if it had one, or is the member that one belongs to. -/
theorem isSome_foldl_noteResult {members : Array Nat} {results : List (Nat × Value)} {f : Frame}
    (hi : i < f.size)
    (h : (f.result? label i).isSome ∨ ∃ r ∈ results, members[r.1]? = some i) :
    ((results.foldl (noteResult label members) f).result? label i).isSome := by
  induction results generalizing f with
  | nil => exact h.resolve_right nofun
  | cons r results ih =>
    rw [List.foldl_cons]
    refine ih (f.size_noteResult label members r ▸ hi) ?_
    have hfirst := f.result?_noteResult label members r i
    by_cases hr : members[r.1]? = some i
    · rw [if_pos ⟨hr, hi⟩] at hfirst
      exact .inl (by rw [hfirst]; rfl)
    · rw [if_neg fun h => hr h.1] at hfirst
      rw [hfirst]
      refine h.imp_right fun ⟨r', hr', hmem⟩ => ?_
      rcases List.mem_cons.mp hr' with rfl | hr'
      · exact absurd hmem hr
      · exact ⟨r', hr', hmem⟩

end Frame

namespace Step

variable {engine : Engine} {c d : Context} {label : String}

/-! ### Results of partitions -/

/-- Results go to the members that they belong to. -/
theorem safe_putResults (label : String) (g : Group) (results : List (Nat × Value)) (c : Context) :
    Safe (putResults label g results) c fun _ d => c.frame.Gains d.frame ∧
      (∀ other, other ≠ label → ∀ i, d.frame.result? other i = c.frame.result? other i) ∧
      ∀ i < c.size, (∃ r ∈ results, g.members[r.1]? = some i) →
        (d.frame.result? label i).isSome := by
  have hput : putResults label g results c = .ok ⟨⟩ { c with
    frame := results.foldl (Frame.noteResult label g.members) c.frame } := rfl
  refine .ok hput ⟨⟨.results label g results c.frame, fun other i hi => ?_⟩, fun other hne i => ?_,
    fun i hi h => Frame.isSome_foldl_noteResult hi (.inr h)⟩
  · by_cases hne : other = label
    · subst hne
      exact Frame.isSome_foldl_noteResult (Frame.lt_size_of_result? hi) (.inl hi)
    · rw [Frame.result?_foldl_noteResult_of_ne hne]
      exact hi
  · exact Frame.result?_foldl_noteResult_of_ne hne g.members results c.frame i

/-- When every partition has a result for each of its rows, every member has one. -/
theorem safe_forM_putResults {groups : List Group}
    {results : Group → Except ExecutionError (List (Nat × Value))}
    (hsafe : ∀ g ∈ groups, ∀ e, results g = .error e → e.isInternal = false)
    (hfull : ∀ g ∈ groups, ∀ found, results g = .ok found →
      ∀ place < g.members.size, ∃ v, (place, v) ∈ found) (c : Context) :
    Safe (groups.forM fun g => do putResults label g (← lift (results g))) c fun _ d =>
      c.frame.Gains d.frame ∧
      (∀ other, other ≠ label → ∀ i, d.frame.result? other i = c.frame.result? other i) ∧
      ∀ g ∈ groups, ∀ i < c.size, i ∈ g.members.toList → (d.frame.result? label i).isSome := by
  induction groups generalizing c with
  | nil => exact .pure ⟨.refl _, fun _ _ _ => rfl, nofun⟩
  | cons g groups ih =>
    have hput : Safe (do putResults label g (← lift (results g))) c fun _ d =>
        c.frame.Gains d.frame ∧
        (∀ other, other ≠ label → ∀ i, d.frame.result? other i = c.frame.result? other i) ∧
        ∀ i < c.size, i ∈ g.members.toList → (d.frame.result? label i).isSome := by
      refine Safe.bind (Q := fun found d => d = c ∧ results g = .ok found)
        (.lift (hsafe g List.mem_cons_self) fun found h => ⟨rfl, h⟩) ?_
      rintro found d ⟨rfl, hfound⟩
      refine (safe_putResults label g found d).mono fun _ e h => ⟨h.1, h.2.1, fun i hi hmem => ?_⟩
      obtain ⟨place, hlt, hplace⟩ := List.getElem_of_mem hmem
      have hlt : place < g.members.size := by simpa using hlt
      obtain ⟨v, hv⟩ := hfull g List.mem_cons_self found hfound place hlt
      refine h.2.2 i hi ⟨(place, v), hv, ?_⟩
      rw [Array.getElem?_eq_getElem hlt, ← hplace]
      simp
    show Safe ((do putResults label g (← lift (results g))) >>= fun _ => groups.forM _) c _
    refine hput.bind fun _ d ⟨hgains, hother, hmembers⟩ => ?_
    refine (ih (fun g' hg' => hsafe g' (List.mem_cons_of_mem g hg'))
      (fun g' hg' => hfull g' (List.mem_cons_of_mem g hg')) d).mono
        fun _ e ⟨hgains', hother', hmembers'⟩ => ⟨hgains.trans hgains', ?_, ?_⟩
    · exact fun other hne i => (hother' other hne i).trans (hother other hne i)
    · intro g' hg' i hi hmem
      rcases List.mem_cons.mp hg' with rfl | hg'
      · exact hgains'.results label i (hmembers i hi hmem)
      · exact hmembers' g' hg' i (Nat.lt_of_lt_of_eq hi hgains.size.symm) hmem

/-- Partitions hold all rows, and only these. -/
theorem safe_partitionBy (hr : engine.functions.Regular) {keys : List Expr}
    (hkeys : ∀ k ∈ keys, k.WindowFree)
    (hc : ∀ i < c.size, c.InGroup i ∨ ∀ k ∈ keys, k.AggregateFree engine.functions) :
    Safe (partitionBy engine keys) c fun groups d =>
      c.frame.Noted (fun _ => True) d.frame ∧
      (∀ label i, d.frame.result? label i = c.frame.result? label i) ∧
      (∀ g ∈ groups, g.frame = c.frame.take g.members.toList ∧ ∀ i ∈ g.members.toList, i < c.size) ∧
      ∀ i < c.size, ∃ g ∈ groups, i ∈ g.members.toList := by
  rw [partitionBy]
  refine ((alwaysSafe_buckets hr hkeys).safe fun found d h => h).bind fun found d hfound => ?_
  obtain ⟨key, -, t, rfl⟩ := exists_of_buckets_eq_ok hc hfound
  have hold := Bucket.hold_ofKeys ((List.range c.size).map key)
  have hlength : ((List.range c.size).map key).length = c.size := by simp
  refine .ok rfl ⟨?_, fun label i => ?_, fun g hg => ?_, fun i hi => ?_⟩
  · exact t.frame ▸ .partitions (fun _ _ => trivial) d.frame
  · exact t.frame ▸ Frame.result?_partitions _ d.frame label i
  · obtain ⟨b, hb, rfl⟩ := List.mem_map.mp hg
    refine ⟨by rw [t.frame], fun i hi => ?_⟩
    exact hlength ▸ Bucket.lt_length_of_mem_members hb (Array.mem_toList_iff.mp hi)
  · obtain ⟨b, hb, hmem⟩ := hold.exists_mem (hlength ▸ hi)
    exact ⟨_, List.mem_map_of_mem hb, hmem⟩

end Step

/-! ### Expressions that may be selected -/

namespace Frame

variable {f g : Frame} {places : List Nat}

/-- Every row is in a group. -/
def InGroups (f : Frame) : Prop := ∀ i < f.size, ((f.rows[i]?).bind (·.group)).isSome

theorem InGroups.take (h : f.InGroups) (hp : ∀ p ∈ places, p < f.size) :
    (f.take places).InGroups := by
  intro i hi
  rw [size_take] at hi
  rw [Context.state_take (f := (·.group)) rfl, List.getElem?_eq_getElem hi]
  exact h _ (hp _ (List.getElem_mem hi))

theorem InGroups.congr (h : f.InGroups) (hsize : g.size = f.size)
    (hgroups : ∀ i : Nat, (g.rows[i]?).map (·.group) = (f.rows[i]?).map (·.group)) : g.InGroups := by
  intro i hi
  have hgroup := congrArg (Option.bind · id) (hgroups i)
  simp only [Option.bind_map, Function.id_comp] at hgroup
  rw [hgroup]
  exact h i (Nat.lt_of_lt_of_eq hi hsize)

theorem InGroups.noted {new : Frame → Prop} (h : f.InGroups) (s : f.Noted new g) : g.InGroups :=
  h.congr s.size s.group

end Frame

namespace Expr

variable {e : Expr}

/-- No aggregate function is called for the value, or for what windows are partitioned and sorted by. -/
inductive Unaggregated (r : Registry) : Expr → Prop
  | plain {e : Expr} : e.WindowFree → e.AggregateFree r → Unaggregated r e
  | window {function : Expr} {partition : List Expr} {order : List OrderItem} {extent : Extent} :
      (∀ p ∈ partition, p.AggregateFree r) → (∀ i ∈ order, Unaggregated r i.expr) →
      Unaggregated r (.window function partition order extent)
  | aliased {e : Expr} {name : String} : Unaggregated r e → Unaggregated r (.aliased e name)

theorem Unaggregated.aggregateFree {r : Registry} (h : e.Unaggregated r) : e.AggregateFree r := by
  induction h with
  | plain _ h => exact h
  | window => exact .intro nofun nofun
  | aliased _ ih => exact .intro nofun (List.forall_mem_singleton.mpr ih)

theorem WindowFree.window? (h : e.WindowFree) : e.window? = none := by
  induction e using Expr.operands_induction with
  | step e ih =>
  cases e with
  | window f p o x =>
    cases h with
    | intro h _ => exact absurd rfl (h f p o x)
  | aliased e name =>
    have hmem : e ∈ (Expr.aliased e name).operands := by simp [operands]
    exact ih e hmem (h.operand hmem)
  | paren e =>
    have hmem : e ∈ (Expr.paren e).operands := by simp [operands]
    exact ih e hmem (h.operand hmem)
  | _ => rfl

/-- Every row has the result of the window that the expression is, if it is one. -/
def Ready (f : Frame) (e : Expr) : Prop :=
  ∀ w label, e.window? = some (w, label) → f.HasResults label

theorem WindowFree.ready (h : e.WindowFree) (f : Frame) : e.Ready f := by
  intro w label hw
  rw [h.window?] at hw
  cases hw

theorem Ready.gains {f g : Frame} (h : e.Ready f) (s : f.Gains g) : e.Ready g :=
  fun w label hw => (h w label hw).gains s

theorem Ready.take {f : Frame} {places : List Nat} (h : e.Ready f) (hp : ∀ p ∈ places, p < f.size) :
    e.Ready (f.take places) :=
  fun w label hw => (h w label hw).take hp

/-- The expression may be selected: windows stand in it only by themselves. -/
abbrev Selectable (e : Expr) : Prop := (SelectItem.expr e).Of WindowFree

theorem Selectable.windowFree (h : e.Selectable) (hw : e.window? = none) : e.WindowFree := by
  cases h with
  | expr h =>
    cases h with
    | plain h => exact h
    | window => cases hw
  | aliased name h =>
    cases h with
    | plain h =>
      refine .intro nofun fun p hp => ?_
      rw [operands, List.mem_singleton] at hp
      exact hp ▸ h
    | window => cases hw

end Expr

namespace Step

variable {engine : Engine} {c d : Context} {es : List Expr} {f : Frame} {row : Nat}

/-- A row has the value of an expression if it has the result of its window. Without a source a window
needs none. -/
theorem safe_value (hr : engine.functions.Regular) {e : Expr} (he : e.Selectable)
    (h : ∀ w label, e.window? = some (w, label) →
      c.sourceEmpty = true ∨ (c.frame.result? label row).isSome) (b : Bool) :
    Safe ((e.evaluator engine).value engine row b) c fun _ _ => True := by
  have hwindowed : ∀ {e : Expr}, e.Windowed Expr.WindowFree →
      (∀ w label, e.window? = some (w, label) →
        c.sourceEmpty = true ∨ (c.frame.result? label row).isSome) →
      Safe ((e.evaluator engine).value engine row b) c fun _ _ => True := by
    intro e he h
    cases he with
    | plain he => exact alwaysSafe_evaluate hr he row b c
    | @window function partition order extent =>
      refine .value ?_
      have hread := h _ _ rfl
      rw [Expr.evaluator]
      have happly := readWindow_apply (Expr.window function partition order extent).label row c
      by_cases hempty : c.sourceEmpty = true
      · rw [if_pos hempty] at happly
        exact .ok happly trivial
      · obtain ⟨v, hv⟩ := Option.isSome_iff_exists.mp (hread.resolve_left hempty)
        rw [Frame.result?] at hv
        rw [if_neg hempty, hv] at happly
        exact .ok happly trivial
  cases he with
  | expr he => exact hwindowed he h
  | aliased name he =>
    rw [Expr.evaluator, Evaluator.value_of_label?_eq_none rfl]
    exact hwindowed he h

/-- A look at a row leaves the rows as they are, unless an aggregate makes a group of them. -/
theorem frame_of_value {e : Expr} {b : Bool} {x : Value}
    (hc : c.InGroup row ∨ e.AggregateFree engine.functions)
    (h : (e.evaluator engine).value engine row b c = .ok x d) : d.frame = c.frame :=
  (((local_evaluate engine e b).answers hc (.refl _ c)).of_ok h).2.frame

/-- The values of expressions in a row of a frame that stays. -/
theorem safe_values (hr : engine.functions.Regular) (hrow : row < f.size)
    (hes : ∀ e ∈ es, e.Selectable) (hready : ∀ e ∈ es, e.Ready f)
    (hstays : f.InGroups ∨ ∀ e ∈ es, e.AggregateFree engine.functions) (hc : c.frame = f) :
    Safe (Evaluator.values engine (Expr.evaluators engine es) row false) c
      fun _ d => d.frame = f := by
  rw [Evaluator.values, Expr.evaluators_eq_map]
  refine (Safe.mapM (I := (·.frame = f)) (fun v hv d hd => ?_) hc).mono fun _ _ h => h.2
  obtain ⟨e, he, rfl⟩ := List.mem_map.mp hv
  subst hd
  have hgroup : d.InGroup row ∨ e.AggregateFree engine.functions :=
    hstays.imp (fun h => h row hrow) fun h => h e he
  refine (safe_value hr (hes e he) (fun w label hw => .inr ?_) false).of_eq_ok
    fun x d' hx _ => frame_of_value hgroup hx
  exact hready e he w label hw row hrow

/-- An action in every row that leaves the frame as it is. -/
theorem safe_rows_of_frame {α : Type} {action : Nat → Step α}
    (h : ∀ i < f.size, ∀ d, d.frame = f → Safe (action i) d fun _ d' => d'.frame = f)
    (hc : c.frame = f) : Safe (rows action) c fun as d => d.frame = f ∧ as.size = f.size := by
  have hsize : ∀ d : Context, d.frame = f → d.size = f.size := fun d hd => congrArg Frame.size hd
  refine (Safe.rows (J := fun _ d => d.frame = f) (fun i d hd hi => h i (hsize d hd ▸ hi) d hd) hc).mono
    fun as d ⟨hd, hle, hlt⟩ => ⟨hd, ?_⟩
  rw [hsize c hc] at hle hlt
  rw [hsize d hd] at hlt
  omega

/-! ### Sorting -/

theorem perm_sortKeys (directions : List Direction) (keys : List (List Value)) :
    ((sortKeys directions keys).map Prod.snd).Perm (List.range keys.length) := by
  refine ((List.mergeSort_perm _ _).map Prod.snd).trans (.of_eq ?_)
  rw [List.zipIdx_map_snd, List.range_eq_range']

/-- Sorting a frame that stays gives a place and a key for every row. -/
theorem safe_sortRows (hr : engine.functions.Regular) {items : List OrderItem}
    (hitems : ∀ i ∈ items, i.expr.Selectable) (hready : ∀ i ∈ items, i.expr.Ready c.frame)
    (hstays : c.frame.InGroups ∨ ∀ i ∈ items, i.expr.AggregateFree engine.functions) :
    Safe (sortRows engine items) c fun s _ =>
      s.permutation.Perm (List.range c.size) ∧ s.keys.length = c.size := by
  rw [sortRows]
  have hrows : Safe (rows fun i => Evaluator.values engine
      (Expr.evaluators engine (items.map OrderItem.expr)) i false) c
      fun keys d => d.frame = c.frame ∧ keys.size = c.size := by
    refine safe_rows_of_frame (fun i hi d hd => ?_) rfl
    refine safe_values hr hi (fun e he => ?_) (fun e he => ?_) (hstays.imp_right ?_) hd
    · obtain ⟨item, hitem, rfl⟩ := List.mem_map.mp he
      exact hitems item hitem
    · obtain ⟨item, hitem, rfl⟩ := List.mem_map.mp he
      exact hready item hitem
    · exact fun h => List.forall_mem_map.mpr h
  refine hrows.bind fun keys d hkeys => .get_bind ?_
  obtain ⟨hframe, hsize⟩ := hkeys
  have hlength : (keys.toList.take d.size).length = c.size := by
    rw [List.length_take, Array.length_toList, Context.size, hframe, hsize]
    exact Nat.min_self _
  refine Safe.bind (Q := fun _ _ => True) (.modify trivial) fun _ _ _ => .pure ⟨?_, ?_⟩
  · exact hlength ▸ perm_sortKeys _ _
  · rw [List.length_map, sortKeys, List.length_mergeSort, List.length_zipIdx, hlength]

/-! ### Windows -/

theorem call?_windowFree {e : Expr} {p : Expr.CallParts} (he : e.WindowFree) (h : e.call? = some p) :
    ∀ a ∈ p.arguments, a.WindowFree := by
  rw [Expr.call?] at h
  split at h
  · rename_i name q arguments hbody
    cases h
    exact fun a ha => (hbody ▸ he.body : (Expr.call name q arguments).WindowFree).operand ha
  · cases h
    exact List.forall_mem_singleton.mpr (.literal _)
  · cases h

/-- The function of a window is found under the name of its call, and is not of a single row. -/
theorem windowFunction_eq_ok {w : Expr.WindowParts} {p : Expr.CallParts} {g : Function}
    (h : windowFunction engine w = .ok (p, g)) :
    w.function.call? = some p ∧ engine.functions.find? p.name = some g ∧ ∀ f, g ≠ .scalar f := by
  rw [windowFunction] at h
  cases hcall : w.function.call? with
  | none =>
    rw [hcall] at h
    cases h
  | some p' =>
    rw [hcall] at h
    dsimp only at h
    split at h
    · cases h
    · split at h
      · cases h
      · cases h
      · cases h
        exact ⟨rfl, ‹_›, fun _ hf => by cases hf⟩
      · split at h
        · cases h
        · cases h
          exact ⟨rfl, ‹_›, fun _ hf => by cases hf⟩

theorem isInternal_windowFunction {w : Expr.WindowParts} {e : ExecutionError}
    (h : windowFunction engine w = .error e) : e.isInternal = false := by
  rw [windowFunction] at h
  cases hcall : w.function.call? with
  | none =>
    rw [hcall] at h
    cases h
    rfl
  | some p =>
    rw [hcall] at h
    dsimp only at h
    split at h
    · cases h
      rfl
    · split at h
      · cases h
        rfl
      · cases h
        rfl
      · cases h
      · split at h
        · cases h
          rfl
        · cases h

/-- An aggregate gives a value for every row of a partition. -/
theorem safe_aggregateWindow (hr : engine.functions.Regular) {p : Expr.CallParts}
    {f : Tuples → Bool → Option Quantifier → Except FunctionError Value}
    (hf : engine.functions.find? p.name = some (.aggregate f))
    (hp : ∀ a ∈ p.arguments, a.WindowFree) (extent : Extent) (size : Nat) (c : Context) :
    Safe (aggregateWindow engine p.name f p extent size) c fun values _ => values.length = size := by
  have hover : ∀ group e, aggregateOver p.name f (fun i => Evaluator.values engine
      (Expr.evaluators engine p.arguments) i true) p.quantifier group = .error e →
      e.isInternal = false := fun group e he =>
    isInternal_aggregateOver hr hf (fun i => alwaysSafe_values hr hp i true) he
  rw [aggregateWindow]
  refine .get_bind ?_
  dsimp only
  split
  · refine Safe.bind (Q := fun _ _ => True) (.lift (hover c.frame) fun _ _ => trivial) ?_
    exact fun v d _ => .pure List.length_replicate
  · refine .lift (fun e he => ?_) fun values hvalues => ?_
    · -- either a range is no range, or the aggregate over it fails
      obtain ⟨i, -, hi⟩ := exists_of_mapM_eq_error he
      cases hextent : extent.rows i size with
      | error e' =>
        rw [hextent] at hi
        cases hi
        rw [Extent.rows] at hextent
        split at hextent
        · cases hextent
          rfl
        · cases hextent
      | ok places =>
        rw [hextent] at hi
        exact hover _ e hi
    · obtain ⟨g, -, rfl⟩ := exists_of_mapM_eq_ok hvalues
      rw [List.length_map, List.length_range]

/-- A window function gives a value for every row of a partition. -/
theorem safe_functionWindow (hr : engine.functions.Regular) {p : Expr.CallParts}
    {f : SortedPartition → Except FunctionError (List Value)}
    (hf : engine.functions.find? p.name = some (.window f)) (hp : ∀ a ∈ p.arguments, a.WindowFree)
    (order : List OrderItem) {keys : List (List Value)} {size : Nat} (hkeys : keys.length = size)
    (c : Context) :
    Safe (functionWindow engine p.name f p order keys size) c fun values _ => values.length = size := by
  rw [functionWindow]
  have htuples : Safe ((List.range size).mapM fun i => Evaluator.values engine
      (Expr.evaluators engine p.arguments) i false) c fun tuples _ => tuples.length = size := by
    refine (Safe.mapM (I := fun _ => True) (fun i _ d _ => alwaysSafe_values hr hp i false d)
      trivial).mono fun tuples _ h => ?_
    rw [h.1, List.length_range]
  refine htuples.bind fun tuples d hlength => ?_
  refine Safe.bind (Q := fun values _ => values.length = size)
    (.lift (fun e he => ?_) fun values hvalues => ?_) fun values d hvalues => ?_
  · cases hresult : f ⟨tuples, order, keys⟩ with
    | ok values =>
      rw [hresult] at he
      cases he
    | error e' =>
      rw [hresult] at he
      cases he
      exact hr.window hf hresult
  · cases hresult : f ⟨tuples, order, keys⟩ with
    | error e' =>
      rw [hresult] at hvalues
      cases hvalues
    | ok values' =>
      rw [hresult] at hvalues
      cases hvalues
      exact (hr.results hf (hkeys.trans hlength.symm) hresult).trans hlength
  · rw [if_pos hvalues]
    exact .pure hvalues

/-- A partition has a result for each of its rows, if sorting gives a place and a key for each. -/
theorem safe_partitionResults (hr : engine.functions.Regular) {w : Expr.WindowParts}
    {p : Expr.CallParts} {g : Function} (hw : windowFunction engine w = .ok (p, g))
    (hfunction : w.function.WindowFree) {sort : Step SortOutcome}
    (hsort : Safe sort c fun s _ => s.permutation.Perm (List.range c.size) ∧ s.keys.length = c.size) :
    Safe (partitionResults engine sort g p w) c
      fun results _ => ∀ place < c.size, ∃ v, (place, v) ∈ results := by
  obtain ⟨hcall, hfind, hscalar⟩ := windowFunction_eq_ok hw
  have harguments := call?_windowFree hfunction hcall
  rw [partitionResults]
  refine .get_bind ?_
  have hzip : ∀ (s : SortOutcome) (values : List Value), s.permutation.Perm (List.range c.size) →
      values.length = c.size → ∀ place < c.size, ∃ v, (place, v) ∈ s.permutation.zip values := by
    intro s values hperm hvalues place hplace
    obtain ⟨k, hk, rfl⟩ := List.getElem_of_mem (hperm.mem_iff.mpr (List.mem_range.mpr hplace))
    have hlength : s.permutation.length = c.size := hperm.length_eq.trans List.length_range
    have hk : k < values.length := by omega
    refine ⟨values[k], ?_⟩
    exact List.mem_iff_getElem.mpr ⟨k, by rw [List.length_zip]; omega, List.getElem_zip⟩
  have hvalues : ∀ {s : SortOutcome} {d : Context} {values : Step (List Value)},
      s.permutation.Perm (List.range c.size) → Safe values d (fun found _ => found.length = c.size) →
      Safe (values >>= fun found => pure (s.permutation.zip found)) d
        fun results _ => ∀ place < c.size, ∃ v, (place, v) ∈ results :=
    fun hperm h => h.bind fun found _ hfound => .pure (hzip _ found hperm hfound)
  cases g with
  | scalar f => exact absurd rfl (hscalar f)
  | aggregate f =>
    have hvalue := fun d => safe_aggregateWindow hr hfind harguments w.extent c.size d
    dsimp only
    split
    · exact hvalues (.refl _) (hvalue c)
    · exact hsort.bind fun s d h => hvalues h.1 (hvalue d)
  | window f =>
    have hvalue : ∀ keys : List (List Value), keys.length = c.size → ∀ d : Context,
        Safe (functionWindow engine p.name f p w.order keys c.size) d
          fun values _ => values.length = c.size :=
      fun keys hkeys d => safe_functionWindow hr hfind harguments w.order hkeys d
    dsimp only
    split
    · exact hvalues (.refl _) (hvalue _ List.length_replicate c)
    · exact hsort.bind fun s d h => hvalues h.1 (hvalue s.keys h.2 d)

/-- A window is computed for every row. The partitions of rows have to be sorted without loss. -/
theorem safe_windowResults (hr : engine.functions.Regular) {w : Expr.WindowParts}
    (hfunction : w.function.WindowFree) (hpartition : ∀ k ∈ w.partition, k.WindowFree)
    (hc : c.frame.Agrees)
    (hstays : c.frame.InGroups ∨ ∀ k ∈ w.partition, k.AggregateFree engine.functions)
    {sort : Step SortOutcome} (hsort : ∀ places : List Nat, (∀ p ∈ places, p < c.size) →
      Safe sort (.ofFrame (c.frame.take places)) fun s _ =>
        s.permutation.Perm (List.range places.length) ∧ s.keys.length = places.length)
    (label : String) :
    Safe (windowResults engine sort w label) c fun _ d =>
      c.frame.Gains d.frame ∧ d.frame.Agrees ∧ d.frame.HasResults label := by
  rw [windowResults]
  refine .get_bind ?_
  cases hrow : c.frame.rows[0]? with
  | none =>
    have hsize : c.frame.size = 0 := by
      have hle := Array.getElem?_eq_none_iff.mp hrow
      exact Nat.le_zero.mp hle
    exact .pure ⟨.refl _, hc, fun i hi => absurd (hsize ▸ hi) (Nat.not_lt_zero i)⟩
  | some row =>
    by_cases hhas : row.windows.has label = true
    · -- the window was computed before, and then in all rows
      have hsome : (c.frame.result? label 0).isSome := by
        rw [Frame.result?, hrow]
        exact hhas
      simp only [hhas, if_true]
      exact .pure ⟨.refl _, hc, hc label 0 (Frame.lt_size_of_result? hsome) hsome⟩
    simp only [hhas, Bool.false_eq_true, if_false]
    refine Safe.bind (Q := fun found d => d = c ∧ windowFunction engine w = .ok found)
      (.lift (fun e he => isInternal_windowFunction he) fun found h => ⟨rfl, h⟩) ?_
    rintro ⟨p, g⟩ d ⟨rfl, hw⟩
    have hgroup : ∀ i < d.size, d.InGroup i ∨ ∀ k ∈ w.partition, k.AggregateFree engine.functions :=
      fun i hi => hstays.imp_left fun h => h i hi
    refine (safe_partitionBy hr hpartition hgroup).bind fun groups e hgroups => ?_
    obtain ⟨hnoted, hsame, hframes, hall⟩ := hgroups
    have hresults : ∀ g' ∈ groups, Safe (partitionResults engine sort g p w) (.ofFrame g'.frame)
        fun results _ => ∀ place < g'.members.size, ∃ v, (place, v) ∈ results := by
      intro g' hg'
      obtain ⟨hframe, hmembers⟩ := hframes g' hg'
      have hsize : (Context.ofFrame g'.frame).size = g'.members.toList.length := by
        rw [Context.size, Context.ofFrame, Context.frame_rebuildFields, hframe, Frame.size_take]
      have hsorted := hsort g'.members.toList hmembers
      rw [← hframe, ← hsize] at hsorted
      have hfull := safe_partitionResults hr hw hfunction hsorted
      rwa [hsize, Array.length_toList] at hfull
    refine (safe_forM_putResults (fun g' hg' e he => (hresults g' hg').runIn_error he)
      (fun g' hg' found hfound => (((hresults g' hg').of_runIn hfound).elim fun _ h => h)) e).mono ?_
    rintro - d' ⟨hgains, hother, hmembers⟩
    have hlabel : d'.frame.HasResults label := by
      intro i hi
      rw [hgains.size, hnoted.size] at hi
      obtain ⟨g', hg', hmem⟩ := hall i hi
      exact hmembers g' hg' i (Nat.lt_of_lt_of_eq hi hnoted.size.symm) hmem
    have htotal : d.frame.Gains d'.frame :=
      ⟨hnoted.trans hgains.noted, fun other i hi => hgains.results other i (by rwa [hsame])⟩
    exact ⟨htotal, hc.gains htotal hlabel fun other hne i => (hother other hne i).trans (hsame other i),
      hlabel⟩

/-- What is left when the windows among expressions have been computed. -/
structure Computed (es : List Expr) (c d : Context) : Prop where
  gains : c.frame.Gains d.frame
  agrees : d.frame.Agrees
  ready : ∀ e ∈ es, e.Ready d.frame

theorem safe_forM_computeWindow (admitted : Expr → Prop)
    (hes : ∀ e ∈ es, ∀ c : Context, c.frame.Agrees → c.frame.InGroups ∨ admitted e →
      Safe (computeWindow engine e) c fun _ d => Computed [e] c d) (hc : c.frame.Agrees)
    (hstays : c.frame.InGroups ∨ ∀ e ∈ es, admitted e) :
    Safe (es.forM (computeWindow engine)) c fun _ d => Computed es c d := by
  induction es generalizing c with
  | nil => exact .pure ⟨.refl _, hc, nofun⟩
  | cons e es ih =>
    show Safe (computeWindow engine e >>= fun _ => es.forM (computeWindow engine)) c _
    refine (hes e List.mem_cons_self c hc (hstays.imp_right fun h => h e List.mem_cons_self)).bind
      fun _ d hd => ?_
    refine (ih (fun e' he' => hes e' (List.mem_cons_of_mem e he')) hd.agrees ?_).mono fun _ d' hd' =>
      ⟨hd.gains.trans hd'.gains, hd'.agrees, List.forall_mem_cons.mpr ⟨?_, hd'.ready⟩⟩
    · exact hstays.imp (·.noted hd.gains.noted) fun h e' he' => h e' (List.mem_cons_of_mem e he')
    · exact (hd.ready e List.mem_cons_self).gains hd'.gains

theorem computeOrderWindows_eq_forM (items : List OrderItem) : computeOrderWindows engine items =
    (items.map OrderItem.expr).forM (computeWindow engine) := by
  induction items with
  | nil => rw [computeOrderWindows]; rfl
  | cons item items ih =>
    obtain ⟨e, direction⟩ := item
    rw [computeOrderWindows, ih]
    rfl

/-- The window that an expression is, if it is one, is computed for every row, unless an aggregate would
make one group of the rows. -/
theorem safe_computeWindow (hr : engine.functions.Regular) {e : Expr}
    (he : e.Windowed Expr.WindowFree) (c : Context) (hc : c.frame.Agrees)
    (hstays : c.frame.InGroups ∨ e.Unaggregated engine.functions) :
    Safe (computeWindow engine e) c fun _ d => Computed [e] c d := by
  induction he generalizing c with
  | plain he =>
    rw [computeWindow_of_window? he.window?]
    exact .pure ⟨.refl _, hc, List.forall_mem_singleton.mpr (he.ready c.frame)⟩
  | @window function partition order extent hcall hfunction hnonempty hpartition horder _ _ ih =>
    have hparts : c.frame.InGroups ∨ (∀ k ∈ partition, k.AggregateFree engine.functions) ∧
        ∀ i ∈ order, i.expr.Unaggregated engine.functions := by
      refine hstays.imp_right fun h => ?_
      cases h with
      | plain h _ =>
        cases h with
        | intro h _ => exact absurd rfl (h _ _ _ _)
      | window hpartition horder => exact ⟨hpartition, horder⟩
    rw [computeWindow]
    refine (safe_windowResults hr hfunction hpartition hc (hparts.imp_right (·.1)) ?_ _).mono
      fun _ d h => ⟨h.1, h.2.1, List.forall_mem_singleton.mpr ?_⟩
    · -- the windows that a partition is sorted by are computed in the partition
      intro places hplaces
      have hframe : (Context.ofFrame (c.frame.take places)).frame = c.frame.take places :=
        Context.frame_rebuildFields _
      have hgroups : (Context.ofFrame (c.frame.take places)).frame.InGroups ∨
          ∀ i ∈ order, i.expr.Unaggregated engine.functions :=
        hparts.imp (fun h => hframe.symm ▸ h.take hplaces) (·.2)
      rw [computeOrderWindows_eq_forM]
      refine (safe_forM_computeWindow (Expr.Unaggregated engine.functions)
        (fun e he => ?_) (hframe.symm ▸ hc.take hplaces) (hgroups.imp_right List.forall_mem_map.mpr)).bind
          fun _ d hd => ?_
      · obtain ⟨item, hitem, rfl⟩ := List.mem_map.mp he
        exact ih item hitem
      · have hsize : d.size = places.length := by
          rw [Context.size, hd.gains.size, hframe, Frame.size_take]
        rw [← hsize]
        refine safe_sortRows hr (fun i hi => .expr (horder i hi))
          (fun i hi => hd.ready i.expr (List.mem_map_of_mem hi)) ?_
        exact hgroups.imp (·.noted hd.gains.noted) fun h i hi => (h i hi).aggregateFree
    · rintro w label ⟨⟩
      exact h.2.2

end Step

end TableQuery
