/-
Results of some of the groups.

What is selected in a group, and the keys by which it is sorted, depend on nothing but the group. So
the result of some of the groups is made up of what is selected in each of them, and comes in the
order in which these groups would come among all of them.

* `Context.Selects` — the groups that a context has taken from another one;
* `selectAll_of_selects` — the result of these groups;
* `exists_of_selectAll_grouped` — what is known when there is a result of all groups.
-/
import TableQuery.Proofs.RowOrder
import TableQuery.Proofs.Selection

namespace TableQuery

/-- The rows of the second context are the groups at the given places of the first. -/
structure Context.Selects (places : List Nat) (c d : Context) : Prop where
  grouped : d.Grouped
  emptyGroup : d.emptyGroup = none
  size : d.size = places.length
  sameRow : ∀ {k i}, places[k]? = some i → d.SameRow k i c
  direct : d.direct = c.direct
  ambiguous : d.ambiguous = c.ambiguous
  columns : d.frame.views.map (fun p => (p.1, p.2.fields)) =
    c.frame.views.map fun p => (p.1, p.2.fields)

namespace Context.Selects

variable {places : List Nat} {c d : Context}

theorem refl (h : c.Grouped) (hempty : c.emptyGroup = none) : Selects (List.range c.size) c c where
  grouped := h
  emptyGroup := hempty
  size := by simp
  sameRow {k i} hk := by
    obtain ⟨-, rfl⟩ := List.getElem?_eq_some_iff.mp hk
    simpa using .refl k c
  direct := rfl
  ambiguous := rfl
  columns := rfl

variable (s : Selects places c d)
include s

theorem itemExprs : d.itemExprs = c.itemExprs := Step.itemExprs_congr s.direct s.columns

theorem orderItem (exprs : List Expr) : d.orderItem exprs = c.orderItem exprs := by
  funext item
  have hknows : d.knows = c.knows := by
    funext name
    rw [knows, knows, s.direct, s.ambiguous]
  rw [Context.orderItem, Context.orderItem, hknows]

theorem getElem? {k : Nat} (hk : k < d.size) : places[k]? = some (places.getD k 0) := by
  rw [s.size] at hk
  simp [hk]

theorem map_range {α : Type} (f : Nat → α) :
    (List.range d.size).map (fun k => f (places.getD k 0)) = places.map f := by
  rw [s.size, Step.map_range_getD]

end Context.Selects

/-- Parentheses make no difference to windows. -/
theorem Expr.window?_body (e : Expr) : e.body.window? = e.window? := by
  induction e using Expr.operands_induction with
  | step e ih =>
  cases e with
  | paren e =>
    rw [Expr.body, Expr.window?]
    exact ih e (by simp [Expr.operands])
  | _ => rfl

namespace Step

variable {engine : Engine} {c d : Context} {exprs : List Expr} {names : List String}
  {order : List OrderItem} {places : List Nat}

/-! ### Nothing to compute beforehand -/

theorem computeWindow_of_window? : ∀ {e : Expr}, e.window? = none →
    computeWindow engine e = pure ()
  | .window .., h => by simp [Expr.window?] at h
  | .aliased e _, h => by
    rw [computeWindow]
    exact computeWindow_of_window? h
  | .paren e, h => by
    rw [computeWindow]
    exact computeWindow_of_window? h
  | .literal _, _ | .field _, _ | .qualified .., _ | .binary .., _ | .unary .., _ | .isNull .., _
  | .isIn .., _ | .isLike .., _ | .cast .., _ | .searchedCase _, _ | .simpleCase .., _ | .call .., _
  | .callStar _, _ | .index .., _ => by simp [computeWindow]

theorem forM_computeWindow (h : ∀ e ∈ exprs, e.window? = none) :
    exprs.forM (computeWindow engine) = pure () := by
  induction exprs with
  | nil => rfl
  | cons e es ih =>
    show (computeWindow engine e >>= fun _ => es.forM (computeWindow engine)) = _
    rw [computeWindow_of_window? (h e List.mem_cons_self), pure_bind]
    exact ih fun e' he' => h e' (List.mem_cons_of_mem e he')

/-- Without keys to sort by nothing happens to the rows. -/
theorem arranged_nil (h : ∀ e ∈ exprs, e.window? = none) (c : Context) :
    arranged engine exprs [] c = .ok () c := by
  rw [arranged, forM_computeWindow h, pure_bind]
  rfl

theorem computeOrderWindows_of_window? : ∀ {items : List OrderItem},
    (∀ item ∈ items, item.expr.window? = none) → computeOrderWindows engine items = pure ()
  | [], _ => by rw [computeOrderWindows]
  | .mk e direction :: items, h => by
    have hfirst : e.window? = none := h (.mk e direction) List.mem_cons_self
    rw [computeOrderWindows, computeWindow_of_window? hfirst, pure_bind]
    exact computeOrderWindows_of_window? fun item hitem => h item (List.mem_cons_of_mem _ hitem)

/-- An item that stands for a selected expression is as free of windows as that is. -/
theorem window?_orderItem (c : Context) {item : OrderItem} (hexprs : ∀ e ∈ exprs, e.window? = none)
    (hitem : item.expr.window? = none) : (c.orderItem exprs item).expr.window? = none := by
  rw [Context.orderItem]
  split
  · split
    · exact hitem
    · dsimp only
      split
      · rename_i inner hfound
        obtain ⟨e, he, hsome⟩ := List.exists_of_findSome?_eq_some hfound
        split at hsome
        · split at hsome
          · cases hsome
            rename_i _ halias
            have hwindow := e.window?_body.trans (hexprs e he)
            rw [halias] at hwindow
            exact hwindow
          · cases hsome
        · cases hsome
      · exact hitem
  · exact hitem

/-- Without windows to compute rows are only sorted. -/
theorem arranged_eq_sortRows (hexprs : ∀ e ∈ exprs, e.window? = none)
    (horder : ∀ item ∈ order, item.expr.window? = none) (hne : order ≠ []) (c : Context) :
    arranged engine exprs order c = discard (sortRows engine (order.map (c.orderItem exprs))) c := by
  have hkeys : ∀ item ∈ order.map (c.orderItem exprs), item.expr.window? = none := by
    intro item h
    obtain ⟨item, hitem, rfl⟩ := List.mem_map.mp h
    exact window?_orderItem c hexprs (horder item hitem)
  have hcond : (!order.isEmpty) = true := by simpa using hne
  rw [arranged, forM_computeWindow hexprs, pure_bind, arrange, if_pos hcond, get_bind, orderBy,
    computeOrderWindows_of_window? hkeys, pure_bind]

/-! ### Order -/

/-- Values are as many as the expressions. -/
theorem length_values (vs : List Evaluator) (i : Nat) (b : Bool) :
    Ensures (fun _ => True) (Evaluator.values engine vs i b)
      fun xs _ => xs.length = vs.length := by
  rw [Evaluator.values]
  induction vs with
  | nil => exact .pure [] fun _ _ => rfl
  | cons v vs ih =>
    rw [List.mapM_cons]
    refine (Ensures.trivial _).bind fun x => ih.bind fun xs => .pure _ fun _ h => ?_
    rw [List.length_cons, List.length_cons, h]

/-- Sorting some of the groups puts them in the order of their keys. Every group is left as its keys
have left it. -/
theorem sortRows_of_selects {items : List OrderItem} {key : Nat → List Value} {left : Nat → Context}
    (s : c.Selects places d) (hkeys : ∀ i ∈ places, Evaluator.values engine
      (Expr.evaluators engine (items.map OrderItem.expr)) i false c = .ok (key i) (left i)) :
    ∃ outcome d', sortRows engine items d = .ok outcome d' ∧ d'.size = places.length ∧
      ∀ {k i}, (sortPlaces (items.map OrderItem.direction) key places)[k]? = some i →
        d'.SameRow k i (left i) := by
  have L := local_values engine (items.map OrderItem.expr) false
  have hin : ∀ k < d.size, d.InGroup k := s.grouped.inGroup
  have hkey : ∀ k ∈ List.range d.size, (Evaluator.values engine
      (Expr.evaluators engine (items.map OrderItem.expr)) k false).runIn d =
        .ok (key (places.getD k 0)) := by
    intro k hk
    have hk := List.mem_range.mp hk
    have hplace := s.getElem? hk
    rw [L.runIn_eq (.inl (hin k hk)) (s.sameRow hplace)]
    exact runIn_eq_ok.mpr ⟨_, hkeys _ (List.mem_of_getElem? hplace)⟩
  have hanswers := L.rows fun k hk => .inl (hin k hk)
  rw [mapM_eq_ok hkey, s.map_range key] at hanswers
  obtain ⟨d₁, hrows, htouched, hstates⟩ := hanswers.eq_ok
  have hsize : d₁.size = places.length := htouched.size.trans s.size
  have htake : (places.map key).toArray.toList.take d₁.size = places.map key := by
    rw [List.take_of_length_le]
    simp [hsize]
  let sorted := sortKeys (items.map OrderItem.direction) (places.map key)
  let permutation := sorted.map Prod.snd
  have hlength : permutation.length = places.length := by simp [permutation, sorted, sortKeys]
  refine ⟨⟨permutation, sorted.map Prod.fst⟩,
    { d₁.reorder permutation with sawPlainColumn := false }, ?_, ?_, ?_⟩
  · rw [sortRows, bind_of_ok hrows, get_bind, htake]
    rfl
  · exact (Context.size_reorder d₁ permutation).trans hlength
  · intro k i hk
    rw [← sortKeys_map_snd, List.getElem?_map] at hk
    obtain ⟨m, hm, rfl⟩ := Option.map_eq_some_iff.mp hk
    have hlt : ∀ p ∈ permutation, p < d₁.size := by
      intro p hp
      have hplt := lt_length_of_mem_sortKeys hp
      rw [hsize]
      simpa using hplt
    have hm' : m < d.size := by
      have hmlt := hlt m (List.mem_of_getElem? hm)
      rwa [htouched.size] at hmlt
    have hplace := s.getElem? hm'
    -- the row is the one at the place, which the loop has left as its keys have
    obtain ⟨e, he⟩ := runIn_eq_ok.mp (hkey m (List.mem_range.mpr hm'))
    have hleft := (L.sameRow (.inl (hin m hm')) (s.sameRow hplace) he
      (hkeys _ (List.mem_of_getElem? hplace))).2
    have hreorder := Context.SameRow.reorder (htouched.aligned s.grouped.aligned) hlt hm
    have hseen := hreorder.note false d₁.sawPlainColumn
    exact (hseen.trans (hstates m hm' _ e he).symm).trans hleft

/-- Some of the groups are put in the order of their keys. -/
theorem arranged_of_selects {key : Nat → List Value} {left : Nat → Context}
    (s : c.Selects places d) (hexprs : ∀ e ∈ exprs, e.window? = none)
    (horder : ∀ item ∈ order, item.expr.window? = none)
    (hkeys : ∀ i ∈ places, Evaluator.values engine (Expr.evaluators engine
      ((order.map (c.orderItem exprs)).map OrderItem.expr)) i false c = .ok (key i) (left i)) :
    ∃ d', arranged engine exprs order d = .ok () d' ∧ d'.size = places.length ∧
      ∀ {k i}, (sortPlaces ((order.map (c.orderItem exprs)).map OrderItem.direction) key
        places)[k]? = some i → d'.SameRow k i (left i) := by
  by_cases hempty : order = []
  · subst hempty
    refine ⟨d, arranged_nil hexprs d, s.size, fun {k i} hk => ?_⟩
    rw [List.map_nil, List.map_nil, sortPlaces_nil] at hk
    have hleft := hkeys i (List.mem_of_getElem? hk)
    rw [List.map_nil, List.map_nil, Expr.evaluators] at hleft
    obtain ⟨-, hc⟩ := EStateM.Result.ok.inj hleft
    exact hc ▸ s.sameRow hk
  · obtain ⟨outcome, d', hsort, hsize, hsame⟩ := sortRows_of_selects s hkeys
    refine ⟨d', ?_, hsize, hsame⟩
    rw [arranged_eq_sortRows hexprs horder hempty, s.orderItem exprs]
    exact discard_of_ok hsort

/-- What is selected in a row after its keys were computed. -/
def sortedRow (engine : Engine) (items : List OrderItem) (exprs : List Expr) (names : List String)
    (i : Nat) : Step Row := do
  let _ ← Evaluator.values engine (Expr.evaluators engine (items.map OrderItem.expr)) i false
  selectedRow engine exprs names i

theorem sortedRow_of_keys {items : List OrderItem} {i : Nat} {key : List Value}
    (h : Evaluator.values engine (Expr.evaluators engine (items.map OrderItem.expr)) i false c =
      .ok key d) :
    (sortedRow engine items exprs names i).runIn c = (selectedRow engine exprs names i).runIn d :=
  runIn_bind_of_ok h

/-- The result of some of the groups is what is selected in each of them, in the order of their
keys. -/
theorem selectAll_of_selects {items : List SelectItem} {l : List (List Expr)}
    {key : Nat → List Value} {row : Nat → Row} (s : c.Selects places d)
    (hl : items.mapM c.itemExprs = .ok l) (hnames : columnNames l.flatten = .ok names)
    (hexprs : ∀ e ∈ l.flatten, e.window? = none) (horder : ∀ item ∈ order, item.expr.window? = none)
    (hkeys : ∀ i ∈ places, (Evaluator.values engine (Expr.evaluators engine
      ((order.map (c.orderItem l.flatten)).map OrderItem.expr)) i false).runIn c = .ok (key i))
    (hrow : ∀ i ∈ places, (sortedRow engine (order.map (c.orderItem l.flatten)) l.flatten names
      i).runIn c = .ok (row i)) :
    (selectAll engine items order none).runIn d = .ok ⟨names,
      ((sortPlaces ((order.map (c.orderItem l.flatten)).map OrderItem.direction) key
        places).map row).toArray⟩ := by
  choose! left hleft using fun i hi => runIn_eq_ok.mp (hkeys i hi)
  obtain ⟨d', harranged, hsize, hsame⟩ := arranged_of_selects s hexprs horder hleft
  have hgrouped : d'.Grouped := (lasting_grouped engine).arranged (fun _ _ => admitted_all)
    (fun _ _ => admitted_all) s.grouped harranged
  have hordered : ordered engine items order d = .ok (l.flatten, names) d' :=
    ordered_eq_ok.mpr ⟨⟨l, by rw [s.itemExprs, hl], rfl⟩, hnames, harranged⟩
  rw [selectAll_eq, runIn_bind_of_ok hordered]
  show (project engine l.flatten names).runIn d' = _
  have hperm := sortPlaces_perm ((order.map (c.orderItem l.flatten)).map OrderItem.direction) key
    places
  generalize sortPlaces ((order.map (c.orderItem l.flatten)).map OrderItem.direction) key
    places = sorted at hperm hsame ⊢
  have hlength := hperm.length_eq
  by_cases hnone : places = []
  · -- without groups there is nothing to select
    have hzero : d'.size = 0 := by rw [hsize, hnone]; rfl
    have hmarks : d'.marks = d.marks := marks_arranged harranged
    have hproject := @project_without_groups engine d' l.flatten names hzero hgrouped.grouped
      ((congrArg (·.2.2) hmarks).trans s.emptyGroup)
    rw [hnone] at hlength
    rw [List.eq_nil_of_length_eq_zero hlength]
    exact runIn_eq_ok.mpr ⟨_, hproject⟩
  · have hpos : d'.size ≠ 0 := by
      rw [hsize]
      exact fun h => hnone (List.eq_nil_of_length_eq_zero h)
    have hselected : ∀ k < d'.size, (selectedRow engine l.flatten names k).runIn d' =
        .ok (row (sorted.getD k 0)) := by
      intro k hk
      have hk' : k < sorted.length := by rwa [hlength, ← hsize]
      have hplace : sorted[k]? = some (sorted.getD k 0) := by simp [hk']
      have hmem := hperm.subset (List.mem_of_getElem? hplace)
      rw [(local_selectedRow engine l.flatten names).runIn_eq (.inl (hgrouped.inGroup k hk))
        (hsame hplace), ← sortedRow_of_keys (hleft _ hmem)]
      exact hrow _ hmem
    rw [project_of_rows hpos hgrouped.sourceEmpty (fun k hk => .inl (hgrouped.inGroup k hk))
      hselected]
    congr 3
    refine List.ext_getElem (by simp [hsize, hlength]) fun k _ hk => ?_
    simp at hk
    simp [hk]

end Step

end TableQuery
