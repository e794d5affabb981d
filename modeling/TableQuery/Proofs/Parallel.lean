/-
Selections with and without memory.

Windows, sorting, limits and the final look at every row are put beside the same with every value
computed anew. Windows are computed first, while remembered values do not depend on results of windows;
then rows are sorted and limited, and take what is remembered along.

* `Context.Parallel` — contexts of the two selections;
* `Step.couples_computeWindow`, `Step.couples_arrange`, `Step.couples_selectAll` — what is done to them.
-/
import TableQuery.Proofs.Memory

namespace TableQuery

/-- Expressions with all that is evaluated for them, windows included, of which no two remember values
under the same label. Rows are partitioned without a look at results of windows. -/
structure Expr.Kin (A : Expr → Prop) : Prop extends Expr.Family A where
  field : ∀ name, A (.field name)
  qualified : ∀ table name, A (.qualified table name)
  argument : ∀ {f p o x c a}, A (.window f p o x) → f.call? = some c → a ∈ c.arguments → A a
  partition : ∀ {f p o x k}, A (.window f p o x) → k ∈ p → A k ∧ k.WindowFree
  order : ∀ {f p o x item}, A (.window f p o x) → item ∈ o → A item.expr

/-- What stands inside parentheses is among the expressions. -/
theorem Expr.Family.body {A : Expr → Prop} (hA : Expr.Family A) {e : Expr} (he : A e) :
    A e.body := by
  induction e using Expr.operands_induction with
  | step e ih =>
  cases e with
  | paren e =>
    rw [Expr.body]
    exact ih e (by simp [Expr.operands]) (hA.operand he (by simp [Expr.operands]))
  | _ => exact he

namespace Context

/-- A context that remembers values beside one that does not, while rows are selected from: their rows
are alike, and no column is left noticed. -/
structure Parallel (engine : Engine) (A : Expr → Prop) (W : Prop) (c d : Context) : Prop where
  mirrors : Mirrors engine A W false (fun _ => True) c d
  aligned : d.Aligned
  uniform : d.Uniform False 0
  unseen : d.sawPlainColumn = false

variable {engine : Engine} {A : Expr → Prop} {W : Prop} {b : Bool} {rows : Nat → Prop} {i k : Nat}
  {c d : Context}

theorem Parallel.windows (h : Parallel engine A False c d) : Parallel engine A W c d :=
  { h with mirrors := h.mirrors.windows }

/-- Notes about windows change nothing as long as their results do not matter. -/
theorem Becomes.noted {new : Frame → Prop} {f : Frame} (hf : c.frame.Noted new f) (hi : i < c.size)
    (saw : Bool) : Becomes False i i c { c with frame := f, sawPlainColumn := saw } := by
  have hview : ∀ table, f.view? table = c.frame.view? table := fun table => by
    rw [Frame.view?, hf.views, Frame.view?]
  refine ⟨⟨hi, fun label => ?_, False.elim, fun g hg => ?_, rfl, id⟩,
    .inl ⟨fun table => ?_, fun table name => ?_, rfl, rfl, rfl⟩⟩
  · have hkeys := congrArg (Option.bind · (·.get? label)) (hf.keys i)
    simp only [Option.bind_map] at hkeys
    exact hkeys.symm
  · have hgroup := congrArg (Option.bind · id) (hf.group i)
    simp only [Option.bind_map, Function.id_comp] at hgroup
    exact hgroup.trans hg
  · exact congrArg _ (hview table).symm
  · exact congrArg _ (hview table).symm

theorem Mirrors.noted (h : Mirrors engine A False b rows c d) {new : Frame → Prop} {f : Frame}
    (hf : c.frame.Noted new f) {saw saw' : Bool} (hsaw : saw = true → saw' = true) :
    Mirrors engine A False b rows { c with frame := f, sawPlainColumn := saw }
      { d with frame := f, sawPlainColumn := saw' } := by
  have hbeside : Beside { c with frame := f, sawPlainColumn := saw }
      { d with frame := f, sawPlainColumn := saw' } := by
    refine ⟨?_, hsaw⟩
    rw [h.beside.same]
  have hsize : f.size = c.size := hf.size
  refine ⟨hbeside, h.size_memo.trans_eq hsize.symm, fun k hk => ?_⟩
  refine (h.faithful k hk).becomes fun label v hv => ?_
  have hlt := lt_size_of_held? h.size_memo hv
  refine ⟨hv, (h.beside.becomes_symm False hlt).trans ((Becomes.noted hf hlt saw).trans ?_)⟩
  exact hbeside.becomes False (Nat.lt_of_lt_of_eq hlt hsize.symm)

/-! ### Rows in another order -/

theorem held?_reorder (c : Context) (places : List Nat) (label : String) :
    (c.reorder places).held? k label = places[k]?.bind fun i => c.held? i label := by
  rw [held?, reorder, List.getElem?_toArray, List.getElem?_map, Option.bind_map]
  refine congrArg _ (funext fun i => ?_)
  rw [held?]
  cases hm : c.memo[i]? with
  | none => simp [hm]
  | some m => simp [hm]

/-- A row that is selected becomes the one at its new place. -/
theorem becomes_reorder (hc : c.Aligned) {places : List Nat} (hp : ∀ p ∈ places, p < c.size)
    (hk : places[k]? = some i) (W : Prop) : Becomes W i k c (c.reorder places) := by
  have hsame := Frame.SameRow.take hc.frame hp hk
  exact ⟨⟨hp i (List.mem_of_getElem? hk), fun label => (hsame.keys label).symm,
    fun _ label => (hsame.windows label).symm, fun g hg => hsame.group.trans hg, rfl, id⟩,
    .inl ⟨fun table => (hsame.fields table).symm, fun table name => (hsame.cells table name).symm, rfl,
      rfl, rfl⟩⟩

theorem Mirrors.reorder (h : Mirrors engine A W b (fun _ => True) c d) (hd : d.Aligned)
    {places : List Nat} (hp : ∀ p ∈ places, p < d.size) {saw saw' : Bool}
    (hsaw : saw = true → saw' = true) :
    Mirrors engine A W b (fun _ => True) { c.reorder places with sawPlainColumn := saw }
      { d.reorder places with sawPlainColumn := saw' } := by
  have hbeside : Beside { c.reorder places with sawPlainColumn := saw }
      { d.reorder places with sawPlainColumn := saw' } := by
    refine ⟨?_, hsaw⟩
    rw [h.beside.same]
    rfl
  refine ⟨hbeside, Nat.le_of_eq ?_, fun k _ => ?_⟩
  · exact (size_memo_reorder c places).trans (size_reorder c places).symm
  -- what is held in row `k` was held in the row that is moved there, which becomes row `k`
  cases hk : places[k]? with
  | none =>
    intro label v hv
    have hnone : (c.reorder places).held? k label = none := by rw [held?_reorder, hk]; rfl
    exact absurd (hnone.symm.trans hv) (by simp)
  | some i =>
    refine (h.faithful i trivial).becomes fun label v hv => ?_
    have hheld : (c.reorder places).held? k label = c.held? i label := by rw [held?_reorder, hk]; rfl
    have hlt : k < (d.reorder places).size := by
      rw [size_reorder]
      exact (List.getElem?_eq_some_iff.mp hk).1
    exact ⟨hheld.symm.trans hv, (becomes_reorder hd hp hk W).trans (.of_same rfl hlt)⟩

end Context

/-- The views of the frame are as long as its rows, and these are alike. -/
structure Frame.Proper (f : Frame) : Prop where
  aligned : f.Aligned
  uniform : (Context.ofFrame f).Uniform False 0

namespace Step

open Context

variable {engine : Engine} {A : Expr → Prop} {W : Prop} {α : Type}

theorem parallel_ofFrame {f : Frame} (hf : f.Proper) :
    Parallel engine A W (.ofFrame f) (.ofFrame f) := by
  have hforgotten := forgotten_ofFrame f
  refine ⟨.of_forgotten (.refl _) hforgotten, ⟨?_, ?_⟩, hf.uniform, ?_⟩
  · rw [ofFrame, frame_rebuildFields]
    exact hf.aligned
  · rw [hforgotten, Array.size_replicate]
  · rw [ofFrame]
    obtain ⟨direct, ambiguous, hc⟩ := rebuildFields_eq _
    rw [hc]

/-- The values of expressions in all rows. -/
theorem couples_values (hA : Expr.Family A) {es : List Expr}
    (hes : ∀ e ∈ es, A e ∧ (W ∨ e.WindowFree)) :
    Couples (fun c d => Mirrors engine A W false (fun _ => True) c d ∧ d.Uniform False 0)
      (rows fun i => Evaluator.values engine (Expr.evaluators engine es) i false)
      (rows fun i => Evaluator.values engine.recomputing
        (Expr.evaluators engine.recomputing es) i false)
      fun _ c d => Mirrors engine A W false (fun _ => True) c d ∧ d.Uniform False 0 :=
  Mirrored.rows (mirrored_values hA hes false) fun i =>
    (steady_uniform _ False).values (fun _ _ => .inl trivial) i false

/-- The buckets of rows by the values of expressions in all of them. -/
theorem couples_buckets {R S : Context → Context → Prop} {keys : List Expr}
    (h : Couples R (rows fun i => Evaluator.values engine (Expr.evaluators engine keys) i false)
      (rows fun i => Evaluator.values engine.recomputing
        (Expr.evaluators engine.recomputing keys) i false) fun _ => S) :
    Couples R (buckets engine keys) (buckets engine.recomputing keys) fun _ => S := by
  rw [buckets, buckets]
  cases duplicateLabel? [] (keys.map Expr.label) with
  | some l => exact .throw _
  | none => exact h.bind fun found => .pure _ fun _ _ hcd => hcd

/-! ### Windows -/

/-- Partitions are made of rows that were looked at. -/
theorem proper_partitionBy {keys : List Expr} (hkeys : ∀ k ∈ keys, k.WindowFree) :
    Ensures (fun d => d.Aligned ∧ d.Uniform False 0 ∧ d.sawPlainColumn = false)
      (partitionBy engine.recomputing keys)
      fun groups d => (d.Aligned ∧ d.Uniform False 0 ∧ d.sawPlainColumn = false) ∧
        ∀ g ∈ groups, g.frame.Proper := by
  have La := lasting_aligned engine.recomputing
  have Lu := @lasting_uniform engine.recomputing rfl
  have hgroups : Ensures (fun d => d.Aligned ∧ d.Uniform False 0 ∧ d.sawPlainColumn = false)
      (partitionBy engine.recomputing keys) fun groups _ => ∀ g ∈ groups, g.frame.Proper := by
    rw [partitionBy]
    refine Ensures.bind (Q := fun buckets d =>
      (∃ n, (∃ size, d.Intact size ∧ n ≤ size) ∧ ∀ b ∈ buckets, ∀ i ∈ b.members, i < n) ∧
      ∃ n, d.Uniform False n ∧ ∀ b ∈ buckets, ∀ i ∈ b.members, i < n)
      (fun c buckets d hc he => ⟨La.buckets (fun _ _ => trivial) hc.1 he, Lu.buckets hkeys hc.2 he⟩)
      fun buckets => ?_
    refine Ensures.bind (Q := fun groups _ => ∀ g ∈ groups, g.frame.Proper) ?_ fun groups c a d hc he => ?_
    · -- a group is taken from places of its bucket, which are places of rows that were looked at
      rw [groupsOf]
      refine .get_bind fun c hc => .pure _ fun d _ g hg => ?_
      obtain ⟨⟨n, ⟨size, hintact, hn⟩, haligned⟩, m, huniform, hmembers⟩ := hc
      obtain ⟨b, hb, rfl⟩ := List.mem_map.mp hg
      have hmem : ∀ {k}, (∀ b ∈ buckets, ∀ i ∈ b.members, i < k) → ∀ i ∈ b.members.toList, i < k :=
        fun h i hi => h b hb i (Array.mem_toList_iff.mp hi)
      constructor
      · refine hintact.1.frame.take (hintact.fits fun i hi => ?_)
        exact Nat.lt_of_lt_of_le (hmem haligned i hi) hn
      · refine huniform.take (hmem hmembers) ?_
        rw [ofFrame, frame_rebuildFields]
    · obtain ⟨⟨⟩, c', -, hlast⟩ := exists_of_bind_eq_ok he
      cases hlast
      exact hc
  intro c groups d hc he
  exact ⟨⟨La.partitionBy (fun _ _ => trivial) hc.1 he, Lu.partitionBy hkeys hc.2 he⟩, hgroups hc he⟩

theorem couples_partitionBy (hA : Expr.Family A) {keys : List Expr}
    (hkeys : ∀ k ∈ keys, A k ∧ k.WindowFree) :
    Couples (Parallel engine A False) (partitionBy engine keys) (partitionBy engine.recomputing keys)
      fun groups c d => Parallel engine A False c d ∧ ∀ g ∈ groups, g.frame.Proper := by
  have hpartitionBy : Couples
      (fun c d => Mirrors engine A False false (fun _ => True) c d ∧ d.Uniform False 0)
      (partitionBy engine keys) (partitionBy engine.recomputing keys)
      fun _ => Mirrors engine A False false fun _ => True := by
    rw [partitionBy, partitionBy]
    have hfree : ∀ k ∈ keys, A k ∧ (False ∨ k.WindowFree) := fun k hk => (hkeys k hk).imp_right .inr
    refine (couples_buckets (couples_values hA hfree)).bind fun buckets => ?_
    refine Couples.bind (Q := fun _ => Mirrors engine A False false fun _ => True) ?_ fun groups => ?_
    · rw [groupsOf]
      refine .get_bind fun c d hcd => ?_
      rw [hcd.1.beside.frame]
      exact .pure _ fun c' d' h => h.1 ▸ h.2 ▸ hcd.1
    · refine (Couples.modify (Q := fun _ => Mirrors engine A False false fun _ => True)
        fun c d hcd => ?_).bind fun _ => .pure _ fun _ _ h => h
      have hnoted := @Frame.Noted.partitions (fun _ => True) groups (fun _ _ => trivial) c.frame
      rw [hcd.beside.frame]
      exact hcd.noted hnoted id
  have hall := hpartitionBy.ensures (proper_partitionBy fun k hk => (hkeys k hk).2)
  refine hall.mono (fun c d hcd => ?_) fun groups c d hcd => ?_
  · exact ⟨⟨hcd.mirrors, hcd.uniform⟩, hcd.aligned, hcd.uniform, hcd.unseen⟩
  · exact ⟨⟨hcd.1, hcd.2.1.1, hcd.2.1.2.1, hcd.2.1.2.2⟩, hcd.2.2⟩

theorem couples_putResults (label : String) (g : Group) (results : List (Nat × Value)) :
    Couples (Parallel engine A False) (putResults label g results) (putResults label g results)
      fun _ => Parallel engine A False := by
  have La := lasting_aligned engine.recomputing
  have Lu := @lasting_uniform engine.recomputing rfl
  have hput : Couples (Mirrors engine A False false fun _ => True) (putResults label g results)
      (putResults label g results) fun _ => Mirrors engine A False false fun _ => True := by
    refine .modify fun c d hcd => ?_
    rw [hcd.beside.frame]
    exact hcd.noted (@Frame.Noted.results (fun _ => False) label g results c.frame)
      hcd.beside.saw
  have hall := hput.ensures (I := fun d => d.Aligned ∧ d.Uniform False 0 ∧ d.sawPlainColumn = false)
    (J := fun _ d => d.Aligned ∧ d.Uniform False 0 ∧ d.sawPlainColumn = false)
    fun c a d hc he => ⟨La.putResults label g results hc.1 he, Lu.putResults label g results hc.2 he⟩
  refine hall.mono (fun c d hcd => ?_) fun groups c d hcd => ?_
  · exact ⟨hcd.mirrors, hcd.aligned, hcd.uniform, hcd.unseen⟩
  · exact ⟨hcd.1, hcd.2.1, hcd.2.2.1, hcd.2.2.2⟩

/-- The values of an aggregate function in the ranges around rows. -/
theorem couples_aggregateWindow (hA : Expr.Family A) {p : Expr.CallParts}
    (hp : ∀ a ∈ p.arguments, A a) (name : String)
    (f : Tuples → Bool → Option Quantifier → Except FunctionError Value) (extent : Extent)
    (size : Nat) :
    Couples (Parallel engine A True) (aggregateWindow engine name f p extent size)
      (aggregateWindow engine.recomputing name f p extent size) fun _ _ _ => True := by
  have hvalue : ∀ frame, Matches
      (aggregateOver name f (fun i => Evaluator.values engine
        (Expr.evaluators engine p.arguments) i true) p.quantifier frame)
      (aggregateOver name f (fun i => Evaluator.values engine.recomputing
        (Expr.evaluators engine.recomputing p.arguments) i true) p.quantifier frame) :=
    matches_aggregateOver name f p.quantifier
      (mirrored_values (W := True) hA (fun a ha => ⟨hp a ha, .inl trivial⟩) true)
  rw [aggregateWindow, aggregateWindow]
  refine .get_bind fun c d hcd => ?_
  rw [hcd.mirrors.beside.frame]
  refine .ite (fun _ => ?_) fun _ => ?_
  · exact (Couples.lift (Q := fun _ _ _ => True) (hvalue _) fun _ _ _ _ _ => trivial).bind fun v =>
      .pure _ fun _ _ _ => trivial
  · refine .lift (.mapM _ fun i _ => ?_) fun _ _ _ _ _ => trivial
    exact Matches.bind (.refl _) fun places => hvalue _

/-- The values of a window function. No row of its partition is looked at afterwards. -/
theorem couples_functionWindow (hA : Expr.Family A) {p : Expr.CallParts}
    (hp : ∀ a ∈ p.arguments, A a) (name : String)
    (f : SortedPartition → Except FunctionError (List Value)) (order : List OrderItem)
    (keys : List (List Value)) (size : Nat) :
    Couples (Parallel engine A True) (functionWindow engine name f p order keys size)
      (functionWindow engine.recomputing name f p order keys size) fun _ _ _ => True := by
  have harguments := @mirrored_values engine A True hA _
    (fun a ha => ⟨hp a ha, .inl trivial⟩) false
  rw [functionWindow, functionWindow]
  have htuples := Couples.mapM_from (T := fun i => Mirrors engine A True false (i ≤ ·))
    (f := fun i => Evaluator.values engine (Expr.evaluators engine p.arguments) i false)
    (g := fun i => Evaluator.values engine.recomputing
      (Expr.evaluators engine.recomputing p.arguments) i false) (List.range size) 0
    fun n hn => by
      rw [Nat.zero_add, List.getElem_range]
      exact Mirrored.couples_behind (harguments n)
  refine (htuples.mono (fun c d hcd => hcd.mirrors.mono fun _ _ => trivial) fun _ _ _ h => h).bind
    fun tuples => ?_
  refine (Couples.lift (Q := fun _ _ _ => True) (.refl _) fun _ _ _ _ _ => trivial).bind
    fun values => .ite (fun _ => ?_) fun _ => ?_
  · exact .pure _ fun _ _ _ => trivial
  · exact .throw _

theorem call?_of_windowFunction {w : Expr.WindowParts} {p : Expr.CallParts} {f : Function}
    (h : windowFunction engine w = .ok (p, f)) : w.function.call? = some p := by
  rw [windowFunction] at h
  cases hcall : w.function.call? with
  | none =>
    rw [hcall] at h
    cases h
  | some c =>
    rw [hcall] at h
    dsimp only at h
    split at h
    · cases h
    split at h
    · cases h
    · cases h
    · cases h
      rfl
    · split at h
      · cases h
      · cases h
        rfl

/-- The results for the rows of a partition, in a context of its own. -/
theorem couples_partitionResults (hA : Expr.Family A) {sort sort' : Step SortOutcome}
    (hsort : Couples (Parallel engine A False) sort sort' fun _ => Parallel engine A True)
    {p : Expr.CallParts} (hp : ∀ a ∈ p.arguments, A a) (f : Function) (w : Expr.WindowParts) :
    Couples (Parallel engine A False) (partitionResults engine sort f p w)
      (partitionResults engine.recomputing sort' f p w) fun _ _ _ => True := by
  rw [partitionResults, partitionResults]
  refine .get_bind fun c d hcd => ?_
  rw [hcd.mirrors.beside.size]
  have hboth : ∀ {s t : SortOutcome → Step (List Value)},
      (∀ sorted, Couples (Parallel engine A True) (s sorted) (t sorted) fun _ _ _ => True) →
      Couples (fun c' d' => c' = c ∧ d' = d)
        ((if w.order.isEmpty then pure ⟨List.range c.size, List.replicate c.size []⟩ else sort) >>=
          fun sorted => s sorted >>= fun values => pure (sorted.permutation.zip values))
        ((if w.order.isEmpty then pure ⟨List.range c.size, List.replicate c.size []⟩ else sort') >>=
          fun sorted => t sorted >>= fun values => pure (sorted.permutation.zip values))
        fun _ _ _ => True := by
    intro s t hst
    refine Couples.bind (Q := fun _ => Parallel engine A True) (.ite (fun _ => ?_) fun _ => ?_)
      fun sorted => (hst sorted).bind fun values => .pure _ fun _ _ _ => trivial
    · exact .pure _ fun c' d' h => h.1 ▸ h.2 ▸ hcd.windows
    · exact hsort.mono (fun c' d' h => h.1 ▸ h.2 ▸ hcd) fun _ _ _ h => h
  -- without an order the rows stay where they are, and nothing is sorted on either side
  cases hempty : w.order.isEmpty <;> rw [hempty] at hboth
  all_goals
    cases f with
    | aggregate f => exact hboth fun sorted => couples_aggregateWindow hA hp p.name f w.extent _
    | window f => exact hboth fun sorted => couples_functionWindow hA hp p.name f w.order sorted.keys _
    | scalar f => exact hboth fun sorted => .pure [] fun _ _ _ => trivial

/-- A window is computed for all rows, with what is evaluated for it among the expressions. -/
theorem couples_windowResults (hA : Expr.Kin A) {f : Expr} {keys : List Expr}
    {order : List OrderItem} {extent : Extent} (he : A (.window f keys order extent))
    {sort sort' : Step SortOutcome}
    (hsort : Couples (Parallel engine A False) sort sort' fun _ => Parallel engine A True)
    (label : String) :
    Couples (Parallel engine A False)
      (windowResults engine sort ⟨f, keys, order, extent⟩ label)
      (windowResults engine.recomputing sort' ⟨f, keys, order, extent⟩ label)
      fun _ => Parallel engine A False := by
  rw [windowResults, windowResults]
  refine .get_bind fun c d hcd => ?_
  have hsame : ∀ c' d', c' = c ∧ d' = d → Parallel engine A False c' d' :=
    fun c' d' h => h.1 ▸ h.2 ▸ hcd
  rw [hcd.mirrors.beside.frame]
  cases c.frame.rows[0]? with
  | none => exact .pure _ hsame
  | some row =>
    dsimp only
    -- a window that has results in the first row was computed before, on both sides
    by_cases hhas : row.windows.has label = true
    · simp only [hhas, if_true]
      exact .pure _ hsame
    simp only [hhas, Bool.false_eq_true, if_false]
    refine Couples.bind (Q := fun found c d => Parallel engine A False c d ∧
      windowFunction engine ⟨f, keys, order, extent⟩ = .ok found) ?_ ?_
    · exact .lift (.refl _) fun found c d hfound h => ⟨hsame c d h, hfound⟩
    rintro ⟨p, function⟩
    refine .of_imp fun hfound => ?_
    have hp : ∀ a ∈ p.arguments, A a := fun a ha =>
      hA.argument he (call?_of_windowFunction hfound) ha
    refine (couples_partitionBy hA.toFamily fun k hk => hA.partition he hk).bind fun groups => ?_
    refine .of_imp fun hgroups => .forM groups fun g hg => ?_
    have hresults := (couples_partitionResults hA.toFamily hsort hp function
      ⟨f, keys, order, extent⟩).runIn (parallel_ofFrame (hgroups g hg))
    refine (Couples.lift (Q := fun _ => Parallel engine A False) hresults
      fun _ _ _ _ h => h).bind fun results => ?_
    exact couples_putResults label g results

/-! ### Sorting and limits -/

/-- Rows take along what is remembered about them when they are sorted. -/
theorem couples_sortRows (hA : Expr.Family A) {items : List OrderItem}
    (hitems : ∀ item ∈ items, A item.expr) :
    Couples (Parallel engine A True) (sortRows engine items) (sortRows engine.recomputing items)
      fun _ => Parallel engine A True := by
  have hexprs : ∀ e ∈ items.map OrderItem.expr, A e ∧ (True ∨ e.WindowFree) := fun e he => by
    obtain ⟨item, hitem, rfl⟩ := List.mem_map.mp he
    exact ⟨hitems item hitem, .inl trivial⟩
  have hvalues := (@couples_values engine _ _ hA _ hexprs).ensures (Ensures.mono
    ((lasting_aligned engine.recomputing).values fun _ _ => trivial) (fun _ h => h)
    fun _ d ⟨_, h, _⟩ => h.1)
  have hsorted : Couples (Parallel engine A True) (sortRows engine items)
      (sortRows engine.recomputing items)
      fun _ => Mirrors engine A True false fun _ => True := by
    rw [sortRows, sortRows]
    refine (hvalues.mono (fun c d hcd => ⟨⟨hcd.mirrors, hcd.uniform⟩, hcd.aligned⟩)
      fun _ _ _ h => h).bind fun keys => .get_bind fun c d hcd => ?_
    obtain ⟨⟨hmirrors, -⟩, haligned⟩ := hcd
    rw [hmirrors.beside.size]
    refine (Couples.modify (Q := fun _ => Mirrors engine A True false fun _ => True) ?_).bind
      fun _ => .pure _ fun _ _ h => h
    rintro _ _ ⟨rfl, rfl⟩
    refine hmirrors.reorder haligned (fun p hp => ?_) id
    have hlt := lt_length_of_mem_sortKeys hp
    rw [hmirrors.beside.size]
    simp at hlt
    omega
  -- the side without memory keeps its invariants by itself
  have hall := hsorted.ensures (I := fun d => d.Aligned ∧ d.Uniform False 0 ∧ d.sawPlainColumn = false)
    (J := fun _ d => d.Aligned ∧ d.Uniform False 0 ∧ d.sawPlainColumn = false)
    fun c a d hc he => ⟨(lasting_aligned _).sortRows (fun _ _ => trivial) hc.1 he,
      uniform_sortRows _ items hc.2.1 he, (lasting_unseen _).sortRows (fun _ _ => trivial) hc.2.2 he⟩
  exact hall.mono (fun c d hcd => ⟨hcd, hcd.aligned, hcd.uniform, hcd.unseen⟩)
    fun _ c d hcd => ⟨hcd.1, hcd.2.1, hcd.2.2.1, hcd.2.2.2⟩

/-- A limit keeps what is remembered about the rows that it keeps. -/
theorem couples_limit (bounds : Limit) :
    Couples (Parallel engine A W) (limit bounds) (limit bounds) fun _ => Parallel engine A W := by
  refine .modify fun c d hcd => ?_
  rw [← hcd.mirrors.beside.size]
  have hplaces : ∀ p ∈ bounds.places d.size, p < d.size := fun p hp => lt_of_mem_places hp
  have hall : d.Uniform False d.size := hcd.uniform.imp_left fun h => ⟨Nat.le_refl _, h.2⟩
  exact ⟨hcd.mirrors.reorder hcd.aligned hplaces hcd.mirrors.beside.saw,
    hcd.aligned.reorder (.inl hplaces), hall.take hplaces rfl, hcd.unseen⟩

/-! ### Windows among items -/

mutual

theorem couples_computeWindow (hA : Expr.Kin A) : ∀ e : Expr, A e →
    Couples (Parallel engine A False) (computeWindow engine e) (computeWindow engine.recomputing e)
      fun _ => Parallel engine A False
  | .window f p o x, he => by
    rw [computeWindow, computeWindow]
    refine couples_windowResults hA he ?_ _
    refine (couples_computeOrderWindows hA o fun item hitem => hA.order he hitem).bind fun _ => ?_
    exact (couples_sortRows hA.toFamily fun item hitem => hA.order he hitem).mono
      (fun _ _ hcd => hcd.windows) fun _ _ _ h => h
  | .aliased e _, he => by
    rw [computeWindow, computeWindow]
    exact couples_computeWindow hA e (hA.operand he (by simp [Expr.operands]))
  | .paren e, he => by
    rw [computeWindow, computeWindow]
    exact couples_computeWindow hA e (hA.operand he (by simp [Expr.operands]))
  | .literal _, _ | .field _, _ | .qualified .., _ | .binary .., _ | .unary .., _ | .isNull .., _
  | .isIn .., _ | .isLike .., _ | .cast .., _ | .searchedCase _, _ | .simpleCase .., _
  | .call .., _ | .callStar _, _ | .index .., _ => by
    rw [computeWindow_of_window? rfl, computeWindow_of_window? rfl]
    exact .pure _ fun _ _ hcd => hcd

theorem couples_computeOrderWindows (hA : Expr.Kin A) : ∀ items : List OrderItem,
    (∀ item ∈ items, A item.expr) →
    Couples (Parallel engine A False) (computeOrderWindows engine items)
      (computeOrderWindows engine.recomputing items) fun _ => Parallel engine A False
  | [], _ => by
    rw [computeOrderWindows, computeOrderWindows]
    exact .pure _ fun _ _ h => h
  | .mk e d :: items, hitems => by
    rw [computeOrderWindows, computeOrderWindows]
    refine (couples_computeWindow hA e (hitems (.mk e d) List.mem_cons_self)).bind fun _ => ?_
    exact couples_computeOrderWindows hA items fun item h => hitems item (List.mem_cons_of_mem _ h)

end

/-- Rows are put in order, with what stands behind aliases among the expressions. -/
theorem couples_arrange (hA : Expr.Kin A) {exprs : List Expr} {order : List OrderItem}
    (hexprs : ∀ e ∈ exprs, A e) (horder : ∀ item ∈ order, A item.expr) :
    Couples (Parallel engine A False) (arrange engine exprs order)
      (arrange engine.recomputing exprs order) fun _ => Parallel engine A True := by
  rw [arrange, arrange]
  refine .ite (fun _ => ?_) fun _ => .pure _ fun _ _ hcd => hcd.windows
  refine .get_bind fun c d hcd => ?_
  have hitem : d.orderItem exprs = c.orderItem exprs := by
    rw [hcd.mirrors.beside.same]
    rfl
  have hitems : ∀ item ∈ order.map (c.orderItem exprs), A item.expr := by
    intro item hmem
    obtain ⟨written, hwritten, rfl⟩ := List.mem_map.mp hmem
    obtain ⟨other, hother, he | ⟨name, -, e, hmem, hbody⟩⟩ := c.sortedBy_orderItem exprs hwritten
    · exact he ▸ horder other hother
    · have haliased := hA.body (hexprs e hmem)
      rw [hbody] at haliased
      exact hA.operand haliased (by simp [Expr.operands])
  rw [hitem, orderBy, orderBy]
  refine Couples.discard (Couples.bind (Q := fun _ => Parallel engine A False) ?_ fun _ => ?_)
  · exact (couples_computeOrderWindows hA _ hitems).mono (fun c' d' h => h.1 ▸ h.2 ▸ hcd)
      fun _ _ _ h => h
  · exact (couples_sortRows hA.toFamily hitems).mono (fun _ _ h => h.windows) fun _ _ _ h => h

/-- The row that stands in for none is in the group without rows, or it is alone. -/
theorem uniform_standIn (c : Context) : (standIn c).Uniform W 0 := by
  have hrows : (standIn c).frame.rows = #[{ group := c.emptyGroup }] := by
    rw [standIn, Context.replaceFrame, Frame.modifyRow, Frame.nullRow]
    rfl
  have hone : ∀ i : Nat, 0 < i → (standIn c).frame.rows[i]? = none := fun i hi => by
    rw [hrows]
    exact Array.getElem?_eq_none hi
  cases hgroup : c.emptyGroup with
  | some g =>
    refine .inl ⟨Nat.zero_le _, fun i hi => ?_⟩
    rw [size_standIn] at hi
    obtain rfl := Nat.lt_one_iff.mp hi
    rw [InGroup, hrows, hgroup]
    rfl
  | none =>
    have hstate : ∀ {α : Type} {f : RowState Frame → Option α}, f {} = none → ∀ i : Nat,
        ((standIn c).frame.rows[i]?).bind f = none := by
      intro α f hf i
      cases i with
      | zero =>
        rw [hrows, hgroup]
        exact hf
      | succ i =>
        rw [hone _ i.succ_pos]
        rfl
    refine .inr ⟨fun i => ?_, fun i label => hstate (f := (·.keys.get? label)) rfl i,
      fun _ i label => hstate (f := (·.windows.get? label)) rfl i⟩
    rw [InGroup, hstate (f := (·.group)) rfl]
    exact Bool.false_ne_true

/-- What is selected comes to the same in every row. -/
theorem couples_project (hA : Expr.Family A) {exprs : List Expr} (hexprs : ∀ e ∈ exprs, A e)
    (names : List String) :
    Couples (Parallel engine A True) (project engine exprs names)
      (project engine.recomputing exprs names) fun _ _ _ => True := by
  have hselected : ∀ i start, Mirrored engine A True false i start
      (selectedRow engine exprs names i) (selectedRow engine.recomputing exprs names i) :=
    fun i start => (mirrored_values hA (fun e he => ⟨hexprs e he, .inl trivial⟩) false i start).bind
      fun values => .pure _
  have hrows : Couples (fun c d => Mirrors engine A True false (fun _ => True) c d ∧
      d.Uniform False 0) (do
        let found ← rows fun i => selectedRow engine exprs names i
        let c ← get
        reset
        return (⟨names, if c.sourceEmpty && !c.aggregated then #[] else found⟩ : View)) (do
        let found ← rows fun i => selectedRow engine.recomputing exprs names i
        let c ← get
        reset
        return (⟨names, if c.sourceEmpty && !c.aggregated then #[] else found⟩ : View))
      fun _ _ _ => True := by
    refine (Mirrored.rows hselected fun i => ?_).bind fun found => .get_bind fun c d hcd => ?_
    · exact ((steady_uniform _ False).values (fun _ _ => .inl trivial) i false).bind fun values =>
        .pure _ fun _ h => h
    · rw [hcd.1.beside.same]
      exact fun _ _ _ => .ok trivial
  rw [project, project]
  refine .get_bind fun c d hcd => ?_
  have hbeside := hcd.mirrors.beside
  have hgrouped : d.grouped = c.grouped := by rw [hbeside.same]
  have hempty : d.emptyGroup = c.emptyGroup := by rw [hbeside.same]
  rw [hbeside.size, hgrouped, hempty, hbeside.frame]
  refine .ite (fun _ => fun _ _ _ => .ok trivial) fun _ => ?_
  by_cases hsize : c.size = 0
  · rw [if_pos hsize, if_pos hsize]
    have hstart : Mirrors engine A True false (fun _ => True) (standIn c) (standIn d) := by
      refine .of_forgotten ⟨?_, hbeside.saw⟩ rfl
      rw [hbeside.same]
      rfl
    -- in place of no rows both sides take the row that stands in, of which nothing is remembered
    have hset : Couples (fun c' d' => c' = c ∧ d' = d) (set (standIn c)) (set (standIn d))
        fun _ c d => Mirrors engine A True false (fun _ => True) c d ∧ d.Uniform False 0 :=
      .set fun _ _ _ => ⟨hstart, uniform_standIn d⟩
    have hstandIn : standIn d = { d.replaceFrame (c.frame.nullRow.modifyRow 0 fun r =>
        { r with group := c.emptyGroup }) with sourceEmpty := true } := by
      rw [standIn, hbeside.frame, hempty]
    rw [hstandIn] at hset
    exact hset.bind fun _ => hrows
  · rw [if_neg hsize, if_neg hsize]
    exact hrows.mono (fun c' d' h => h.1 ▸ h.2 ▸ ⟨hcd.mirrors, hcd.uniform⟩) fun _ _ _ h => h

theorem couples_selectAll (hA : Expr.Kin A) {items : List SelectItem} {order : List OrderItem}
    (hitems : ∀ e, .expr e ∈ items → A e) (horder : ∀ item ∈ order, A item.expr)
    (bounds : Option Limit) :
    Couples (Parallel engine A False) (selectAll engine items order bounds)
      (selectAll engine.recomputing items order bounds) fun _ _ _ => True := by
  rw [selectAll, selectAll]
  refine .get_bind fun c d hcd => ?_
  have hbeside := hcd.mirrors.beside
  have hsame : d.itemExprs = c.itemExprs :=
    itemExprs_congr (by rw [hbeside.same]) (by rw [hbeside.frame])
  rw [hsame]
  refine Couples.bind (Q := fun exprs c d => Parallel engine A False c d ∧ ∀ e ∈ exprs, A e) ?_
    fun exprs => .of_imp fun hexprs => ?_
  · refine .lift (.refl _) fun exprs c' d' hexprs h => ⟨h.1 ▸ h.2 ▸ hcd, ?_⟩
    obtain ⟨l, hl, rfl⟩ := exists_of_map_eq_ok hexprs
    exact forall_itemExprs hA.field hA.qualified (fun e he => hitems e he) hl
  refine (Couples.lift (Q := fun _ => Parallel engine A False) (.refl _) fun _ _ _ _ h => h).bind
    fun names => ?_
  refine (Couples.forM exprs fun e he => couples_computeWindow hA e (hexprs e he)).bind fun _ => ?_
  refine (couples_arrange hA hexprs horder).bind fun _ => ?_
  refine (Couples.forM_option bounds fun b _ => couples_limit b).bind fun _ => ?_
  exact couples_project hA.toFamily hexprs names

end Step

end TableQuery
