/-
What operations on rows keep.

Filters, windows, sorting and limits evaluate expressions row by row, note things about rows, and
select some of them. A condition on contexts that stands all of this is kept by these operations,
`Step.Lasting`. It may have to be weakened while rows are looked at, to a second condition that
speaks of how many rows were looked at as well.

* `Frame.Noted` — frames that differ only in what windows note about rows;
* `Lasting.filter`, `Lasting.computeWindow`, `Lasting.arrange`, `Lasting.limit` — what is kept;
* `lasting_unseen` — no operation leaves a plain column noticed.
-/
import TableQuery.Context.Projection
import TableQuery.Proofs.Buckets
import TableQuery.Proofs.Ensures

namespace TableQuery

/-! ### Notes about rows -/

/-- The second frame differs from the first only in the partitions and windows of its rows, and what
partitions are new satisfy a condition. -/
structure Frame.Noted (new : Frame → Prop) (f g : Frame) : Prop where
  views : g.views = f.views
  group : ∀ i : Nat, (g.rows[i]?).map (·.group) = (f.rows[i]?).map (·.group)
  keys : ∀ i : Nat, (g.rows[i]?).map (·.keys) = (f.rows[i]?).map (·.keys)
  partition : ∀ (i : Nat) (p : Frame), (g.rows[i]?).bind (·.partition) = some p →
    (f.rows[i]?).bind (·.partition) = some p ∨ new p

/-- The frame is made of rows of another, all among the first of them. -/
def Frame.PartOf (f : Frame) (n : Nat) (g : Frame) : Prop :=
  ∃ places : List Nat, (∀ p ∈ places, p < n) ∧ g = f.take places

namespace Frame.Noted

variable {new : Frame → Prop} {f g h : Frame}

theorem refl (new : Frame → Prop) (f : Frame) : f.Noted new f :=
  ⟨rfl, fun _ => rfl, fun _ => rfl, fun _ _ hp => .inl hp⟩

theorem trans (s : f.Noted new g) (t : g.Noted new h) : f.Noted new h where
  views := t.views.trans s.views
  group i := (t.group i).trans (s.group i)
  keys i := (t.keys i).trans (s.keys i)
  partition i p hp := (t.partition i p hp).elim (s.partition i p) .inr

theorem size (s : f.Noted new g) : g.size = f.size := by
  have hlt : ∀ i, i < g.rows.size ↔ i < f.rows.size := by
    intro i
    have hi := congrArg Option.isSome (s.group i)
    rw [Option.isSome_map, Option.isSome_map, Bool.eq_iff_iff] at hi
    simpa using hi
  have hg := hlt g.rows.size
  have hf := hlt f.rows.size
  rw [Frame.size, Frame.size]
  omega

theorem modifyRow (f : Frame) (i : Nat) (change : RowState Frame → RowState Frame)
    (h : ∀ r, (change r).group = r.group ∧ (change r).keys = r.keys)
    (hp : ∀ r p, (change r).partition = some p → r.partition = some p ∨ new p) :
    f.Noted new (f.modifyRow i change) := by
  have hsame : ∀ {α : Type} (g : RowState Frame → α), (∀ r, g (change r) = g r) → ∀ k : Nat,
      ((f.modifyRow i change).rows[k]?).map g = (f.rows[k]?).map g := by
    intro α g hg k
    rw [Frame.modifyRow, Array.getElem?_modify]
    split
    · rw [Option.map_map]
      exact congrArg (fun h => Option.map h f.rows[k]?) (funext hg)
    · rfl
  refine ⟨rfl, hsame _ fun r => (h r).1, hsame _ fun r => (h r).2, fun k p hk => ?_⟩
  rw [Frame.modifyRow, Array.getElem?_modify] at hk
  split at hk
  · rw [Option.bind_map] at hk
    obtain ⟨r, hr, hchange⟩ := Option.bind_eq_some_iff.mp hk
    rw [hr]
    exact hp r p hchange
  · exact .inl hk

theorem foldl {γ : Type} {change : Frame → γ → Frame} (l : List γ)
    (h : ∀ (f : Frame), ∀ a ∈ l, f.Noted new (change f a)) :
    ∀ f : Frame, f.Noted new (l.foldl change f) := by
  induction l with
  | nil => exact refl new
  | cons a l ih =>
    intro f
    exact (h f a List.mem_cons_self).trans (ih (fun f b hb => h f b (List.mem_cons_of_mem a hb)) _)

theorem partitions {groups : List Group} (hgroups : ∀ g ∈ groups, new g.frame) (f : Frame) :
    f.Noted new (groups.foldl (fun f g => g.members.foldl (fun f i =>
      f.modifyRow i fun r => { r with partition := some g.frame }) f) f) := by
  refine foldl groups (fun f g hg => ?_) f
  have hmember : ∀ (f : Frame), ∀ i ∈ g.members.toList, f.Noted new (f.modifyRow i fun r =>
      { r with partition := some g.frame }) := by
    refine fun f i _ => modifyRow f i _ (fun _ => ⟨rfl, rfl⟩) fun r p hp => ?_
    cases hp
    exact .inr (hgroups g hg)
  rw [← Array.foldl_toList]
  exact foldl g.members.toList hmember f

theorem results (label : String) (g : Group) (results : List (Nat × Value)) (f : Frame) :
    f.Noted new (results.foldl (fun frame (place, v) =>
      match g.members[place]? with
      | some i => frame.modifyRow i fun r => { r with windows := r.windows.put label v }
      | none => frame) f) := by
  refine foldl results (fun f p _ => ?_) f
  cases hplace : g.members[p.1]? with
  | none => simp only [hplace]; exact .refl new f
  | some i => simp only [hplace]; exact modifyRow f i _ (fun _ => ⟨rfl, rfl⟩) fun _ _ => .inl

end Frame.Noted

/-! ### Places -/

theorem lt_size_of_mem_truePlaces {truths : Array Bool} {i : Nat} (h : i ∈ truePlaces truths) :
    i < truths.size := by
  obtain ⟨⟨b, k⟩, hk, rfl⟩ := List.mem_map.mp h
  have hlt := List.snd_lt_of_mem_zipIdx (List.mem_filter.mp hk).1
  simpa using hlt

theorem lt_of_mem_places {l : Limit} {n i : Nat} (h : i ∈ l.places n) : i < n := by
  have hrange := List.mem_range.mp (List.mem_of_mem_drop h)
  split at hrange <;> omega

theorem lt_length_of_mem_sortKeys {directions : List Direction} {keys : List (List Value)} {i : Nat}
    (h : i ∈ (sortKeys directions keys).map Prod.snd) : i < keys.length := by
  obtain ⟨p, hp, rfl⟩ := List.mem_map.mp h
  have hlt := List.snd_lt_of_mem_zipIdx ((List.mergeSort_perm _ _).subset hp)
  simpa using hlt

/-! ### Operations -/

/-- The expressions by which rows are partitioned for the window that an expression is. -/
def Expr.partition : Expr → List Expr
  | .window _ p _ _ => p
  | .aliased e _ => e.partition
  | .paren e => e.partition
  | _ => []

/-- The expression and the partition of its window, if it is one, are among those that may be
evaluated over all rows. -/
structure Expr.Admitted (admits : Expr → Prop) (e : Expr) : Prop where
  self : admits e
  partition : ∀ p ∈ e.partition, admits p

namespace Step

variable {engine : Engine} {admits : Expr → Prop} {I : Context → Prop}
  {J : Nat → Context → Prop}

/-- What operations on rows keep, as long as they evaluate certain expressions over all rows. The
condition `J n` holds when `n` rows were looked at. -/
structure Lasting (engine : Engine) (admits : Expr → Prop) (I : Context → Prop)
    (J : Nat → Context → Prop) : Prop where
  operand : ∀ {e p}, admits e → p ∈ e.operands → admits p
  values : ∀ {es}, (∀ e ∈ es, admits e) → Ensures I
    (rows fun i => Evaluator.values engine (Expr.evaluators engine es) i false)
    fun as d => J as.size d
  holds : ∀ {e}, admits e → Ensures I (rows fun i => (e.evaluator engine).holds engine i)
    fun as d => J as.size d
  filtered : ∀ {c n places}, J n c → (∀ p ∈ places, p < n) →
    I { c.replaceFrame (c.frame.take places) with sawPlainColumn := false }
  sorted : ∀ {c n places}, J n c → (∀ p ∈ places, p < n) →
    I { c.reorder places with sawPlainColumn := false }
  partitioned : ∀ {c n f}, J n c → c.frame.Noted (c.frame.PartOf n) f →
    I { c with frame := f, sawPlainColumn := false }
  noted : ∀ {c f}, I c → c.frame.Noted (fun _ => False) f → I { c with frame := f }
  limited : ∀ {c places}, I c → (∀ p ∈ places, p < c.size) → I (c.reorder places)

/-- Groups are made of rows that were looked at. -/
theorem groups_partOf (J : Nat → Context → Prop) (buckets : List Bucket) :
    Ensures (fun c => ∃ n, J n c ∧ ∀ b ∈ buckets, ∀ i ∈ b.members, i < n) (groupsOf buckets)
      fun groups c => ∃ n, J n c ∧ ∀ g ∈ groups, c.frame.PartOf n g.frame := by
  rw [groupsOf]
  refine .get_bind fun c hc => .pure _ fun d hd => ?_
  obtain ⟨n, hn, hmembers⟩ := hc
  obtain rfl : d = c := hd
  refine ⟨n, hn, fun g hg => ?_⟩
  obtain ⟨b, hb, rfl⟩ := List.mem_map.mp hg
  exact ⟨b.members.toList, fun i hi => hmembers b hb i (Array.mem_toList_iff.mp hi), rfl⟩

/-! ### Windows -/

/-- A window keeps what partitions and the results that are put into rows under its label keep. -/
theorem ensures_windowResults {w : Expr.WindowParts} {label : String}
    (hput : ∀ g results, Ensures I (putResults label g results) fun _ => I)
    (hpartition : Ensures I (partitionBy engine w.partition) fun _ => I) (sort : Step SortOutcome) :
    Ensures I (windowResults engine sort w label) fun _ => I := by
  rw [windowResults]
  refine .get_bind fun c hc => ?_
  have hsame : ∀ d, d = c → I d := fun d hd => hd ▸ hc
  split
  · exact .pure _ hsame
  · rename_i row _
    cases row.windows.has label with
    | true => exact .pure _ hsame
    | false =>
      refine (Ensures.lift (Q := fun _ => I) _ fun d _ hd _ => hsame d hd).bind ?_
      rintro ⟨p, f⟩
      refine hpartition.bind fun groups => .forM groups fun g _ => ?_
      refine (Ensures.lift (Q := fun _ => I) _ fun d _ hd _ => hd).bind fun results => ?_
      exact hput g results

section Windows

variable {e : Expr} {items : List OrderItem}
  (hput : ∀ label g results, Ensures I (putResults label g results) fun _ => I)
include hput

theorem ensures_computeWindow (hpartition : Ensures I (partitionBy engine e.partition) fun _ => I) :
    Ensures I (computeWindow engine e) fun _ => I := by
  induction e using Expr.operands_induction with
  | step e ih =>
  cases e with
  | window f p o x =>
    rw [computeWindow]
    rw [Expr.partition] at hpartition
    exact ensures_windowResults (hput _) hpartition _
  | aliased e name =>
    rw [computeWindow]
    rw [Expr.partition] at hpartition
    exact ih e (by simp [Expr.operands]) hpartition
  | paren e =>
    rw [computeWindow]
    rw [Expr.partition] at hpartition
    exact ih e (by simp [Expr.operands]) hpartition
  | _ =>
    rw [computeWindow]
    · exact .pure _ fun _ h => h
    all_goals simp

theorem ensures_computeOrderWindows
    (hpartitions : ∀ item ∈ items, Ensures I (partitionBy engine item.expr.partition) fun _ => I) :
    Ensures I (computeOrderWindows engine items) fun _ => I := by
  induction items with
  | nil =>
    rw [computeOrderWindows]
    exact .pure _ fun _ h => h
  | cons item items ih =>
    obtain ⟨e, d⟩ := item
    rw [computeOrderWindows]
    refine (ensures_computeWindow hput (hpartitions (.mk e d) List.mem_cons_self)).bind fun _ => ?_
    exact ih fun item' h => hpartitions item' (List.mem_cons_of_mem _ h)

end Windows

namespace Lasting

variable (L : Lasting engine admits I J)
include L

theorem filter {e : Expr} (he : admits e) : Ensures I (Step.filter engine e) fun _ => I := by
  rw [Step.filter]
  refine (L.holds he).bind fun truths => ?_
  exact .modify _ fun c hc => L.filtered hc fun p hp => lt_size_of_mem_truePlaces hp

theorem limit (bounds : Limit) : Ensures I (Step.limit bounds) fun _ => I :=
  .modify _ fun _ hc => L.limited hc fun _ hp => lt_of_mem_places hp

theorem buckets {keys : List Expr} (hkeys : ∀ p ∈ keys, admits p) :
    Ensures I (Step.buckets engine keys) fun buckets d =>
      ∃ n, J n d ∧ ∀ b ∈ buckets, ∀ i ∈ b.members, i < n := by
  rw [Step.buckets]
  split
  · exact .throw _
  · refine (L.values hkeys).bind fun found => .pure _ fun _ hc => ⟨_, hc, fun b hb i hi => ?_⟩
    exact Nat.lt_of_lt_of_eq (Bucket.lt_length_of_mem_members hb hi) found.length_toList

theorem partitionBy {keys : List Expr} (hkeys : ∀ p ∈ keys, admits p) :
    Ensures I (Step.partitionBy engine keys) fun _ => I := by
  rw [Step.partitionBy]
  refine (L.buckets hkeys).bind fun buckets => (groups_partOf J buckets).bind fun groups => ?_
  refine (Ensures.modify (Q := fun _ => I) _ fun c hc => ?_).bind fun _ => .pure _ fun _ h => h
  obtain ⟨n, hn, hgroups⟩ := hc
  exact L.partitioned hn (.partitions hgroups c.frame)

theorem putResults (label : String) (g : Group) (results : List (Nat × Value)) :
    Ensures I (Step.putResults label g results) fun _ => I :=
  .modify _ fun c hc => L.noted hc (.results label g results c.frame)

theorem computeWindow (e : Expr) (he : ∀ p ∈ e.partition, admits p) :
    Ensures I (Step.computeWindow engine e) fun _ => I :=
  ensures_computeWindow (fun label g results => L.putResults label g results) (L.partitionBy he)

theorem computeOrderWindows {items : List OrderItem}
    (hitems : ∀ item ∈ items, ∀ p ∈ item.expr.partition, admits p) :
    Ensures I (Step.computeOrderWindows engine items) fun _ => I :=
  ensures_computeOrderWindows (fun label g results => L.putResults label g results)
    fun item h => L.partitionBy (hitems item h)

theorem sortRows {items : List OrderItem} (hitems : ∀ item ∈ items, admits item.expr) :
    Ensures I (Step.sortRows engine items) fun _ => I := by
  rw [Step.sortRows]
  have hexprs : ∀ e ∈ items.map OrderItem.expr, admits e := fun e he => by
    obtain ⟨item, hitem, rfl⟩ := List.mem_map.mp he
    exact hitems item hitem
  refine (L.values hexprs).bind fun keys => .get_bind fun c hc => ?_
  refine (Ensures.modify (Q := fun _ => I) _ ?_).bind fun _ => .pure _ fun _ h => h
  rintro d rfl
  refine L.sorted hc fun p hp => ?_
  have hlt := lt_length_of_mem_sortKeys hp
  simp at hlt
  omega

theorem orderBy {items : List OrderItem} (hitems : ∀ item ∈ items, item.expr.Admitted admits) :
    Ensures I (Step.orderBy engine items) fun _ => I := by
  rw [Step.orderBy]
  refine (L.computeOrderWindows fun item h => (hitems item h).partition).bind fun _ => ?_
  exact L.sortRows fun item h => (hitems item h).self

/-- What an alias stands for may be evaluated as well. -/
theorem admitted_of_aliased {e inner : Expr} {a : String} (he : e.Admitted admits)
    (hbody : e.body = .aliased inner a) : inner.Admitted admits := by
  induction e using Expr.operands_induction with
  | step e ih =>
  cases e with
  | aliased e name =>
    obtain ⟨rfl, rfl⟩ : e = inner ∧ name = a := by simpa [Expr.body] using hbody
    obtain ⟨hself, hpartition⟩ := he
    rw [Expr.partition] at hpartition
    exact ⟨L.operand hself (by simp [Expr.operands]), hpartition⟩
  | paren e =>
    obtain ⟨hself, hpartition⟩ := he
    rw [Expr.partition] at hpartition
    exact ih e (by simp [Expr.operands]) ⟨L.operand hself (by simp [Expr.operands]), hpartition⟩
      (by simpa [Expr.body] using hbody)
  | _ => simp [Expr.body] at hbody

theorem admitted_orderItem {exprs : List Expr} {item : OrderItem} (c : Context)
    (hexprs : ∀ e ∈ exprs, e.Admitted admits) (hitem : item.expr.Admitted admits) :
    (c.orderItem exprs item).expr.Admitted admits := by
  rw [Context.orderItem]
  split
  · split
    · exact hitem
    · dsimp only
      split
      · rename_i inner hfound
        obtain ⟨e, he, hsome⟩ := List.exists_of_findSome?_eq_some hfound
        split at hsome
        · split at hsome
          · cases hsome
            exact L.admitted_of_aliased (hexprs e he) ‹_›
          · cases hsome
        · cases hsome
      · exact hitem
  · exact hitem

theorem arrange {exprs : List Expr} {order : List OrderItem}
    (hexprs : ∀ e ∈ exprs, e.Admitted admits) (horder : ∀ item ∈ order, item.expr.Admitted admits) :
    Ensures I (Step.arrange engine exprs order) fun _ => I := by
  rw [Step.arrange]
  refine .ite (fun _ => .get_bind fun c hc => Ensures.discard ?_) fun _ => .pure _ fun _ hc => hc
  refine (L.orderBy fun item h => ?_).mono (fun d (hd : d = c) => hd ▸ hc) fun _ _ hd => hd
  obtain ⟨item, hitem, rfl⟩ := List.mem_map.mp h
  exact L.admitted_orderItem c hexprs (horder item hitem)

end Lasting

/-- What looks at rows keep however many there are, and the selection of rows and notes about them as
well. -/
theorem Steady.lasting {aggregates : Prop} (S : Steady engine aggregates I)
    (saw : ∀ {c} p, I c → I { c with sawPlainColumn := p })
    (take : ∀ {c} places, I c → I (c.replaceFrame (c.frame.take places)))
    (reorder : ∀ {c} places, I c → I (c.reorder places))
    (noted : ∀ {c new f}, I c → c.frame.Noted new f → I { c with frame := f }) :
    Lasting engine (fun e => aggregates ∨ e.AggregateFree engine.functions) I fun _ => I where
  operand h hp := h.imp_right fun hfree => hfree.operand hp
  values hes := .of_size fun n => (Ensures.rows (n := n) fun i => S.values hes i false).mono
    (fun _ hc => ⟨hc.1, Nat.le_of_eq hc.2⟩) fun _ _ hd => hd.1
  holds he := .of_size fun n => (Ensures.rows (n := n) fun i => S.holds he i).mono
    (fun _ hc => ⟨hc.1, Nat.le_of_eq hc.2⟩) fun _ _ hd => hd.1
  filtered h _ := saw false (take _ h)
  sorted h _ := saw false (reorder _ h)
  partitioned h hf := saw false (noted h hf)
  noted := noted
  limited h _ := reorder _ h

theorem admitted_all {e : Expr} : e.Admitted fun _ => True := ⟨trivial, fun _ _ => trivial⟩

/-- With aggregates nothing is asked of expressions. -/
theorem admitted_aggregates {e : Expr} {P : Expr → Prop} : e.Admitted fun e => True ∨ P e :=
  ⟨.inl trivial, fun _ _ => .inl trivial⟩

/-- Whatever is done, no plain column is left noticed. -/
theorem lasting_unseen (engine : Engine) :
    Lasting engine (fun _ => True) (·.sawPlainColumn = false) fun _ _ => True where
  operand _ _ := trivial
  values _ := Ensures.mono (Ensures.trivial _) (fun _ _ => trivial) fun _ _ h => h
  holds _ := Ensures.mono (Ensures.trivial _) (fun _ _ => trivial) fun _ _ h => h
  filtered _ _ := rfl
  sorted _ _ := rfl
  partitioned _ _ := rfl
  noted h _ := h
  limited h _ := h

end Step

end TableQuery
