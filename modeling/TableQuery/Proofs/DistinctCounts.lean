/-
How many distinct values there are.

Duplicates are removed twice over: an aggregate adds a value if none that it has equals it, and a query for
distinct rows groups them. Both keep first occurrences, and differ just in what counts as the same. What equals
nothing, not even itself, is added to the values of an aggregate whenever it comes up, but has one group.

* `freshPlaces` — the places of first occurrences, for either equality;
* `Context.Remaining` — the rows from which both queries select;
* `Step.select_count_distinct`, `Step.select_distinct` — the count of the distinct values of an expression, and the
  values;
* `Statement.execute_count_distinct` — the query for the count beside the query for the values.
-/
import TableQuery.Proofs.Conditions
import TableQuery.Proofs.DistinctRows
import TableQuery.Proofs.SameKeys
import TableQuery.Proofs.TrustedRows

namespace TableQuery

/-! ### First occurrences -/

/-- The places among the first `n` at which there is a value that is not Null and the same as none before. -/
def freshPlaces (same : Value → Value → Bool) (value : Nat → Value) (n : Nat) : List Nat :=
  (List.range n).filter fun k =>
    !(value k).isNull && (List.range k).all fun j => !same (value j) (value k)

section freshPlaces

variable {same : Value → Value → Bool} {value : Nat → Value} {n k : Nat}

theorem mem_freshPlaces : k ∈ freshPlaces same value n ↔
    k < n ∧ (value k).isNull = false ∧ ∀ j < k, same (value j) (value k) = false := by
  simp [freshPlaces]

theorem freshPlaces_succ (same : Value → Value → Bool) (value : Nat → Value) (n : Nat) :
    freshPlaces same value (n + 1) = freshPlaces same value n ++
      if (value n).isNull = true ∨ ∃ j < n, same (value j) (value n) = true then [] else [n] := by
  rw [freshPlaces, List.range_succ, List.filter_append, ← freshPlaces, List.filter_cons, List.filter_nil]
  congr 1
  by_cases h : (value n).isNull = true ∨ ∃ j < n, same (value j) (value n) = true
  · rw [if_pos h, if_neg]
    rcases h with h | h <;> simp [h]
  · rw [if_neg h, if_pos]
    simpa using h

/-- A value that equals an earlier one equals a first occurrence. -/
theorem exists_freshPlace_of_equal {v : Value} (hk : k < n) (h : (value k).equal v = true) :
    ∃ j ∈ freshPlaces Value.equal value n, (value j).equal v = true := by
  induction k using Nat.strong_induction_on with
  | _ k ih =>
  by_cases hearlier : ∃ j < k, (value j).equal (value k) = true
  · obtain ⟨j, hj, hequal⟩ := hearlier
    exact ih j hj (hj.trans hk) (Value.equal_trans hequal h)
  · refine ⟨k, mem_freshPlaces.mpr ⟨hk, Value.not_isNull_of_isDefinite (Value.isDefinite_of_equal h), ?_⟩, h⟩
    intro j hj
    exact Bool.eq_false_iff.mpr fun hequal => hearlier ⟨j, hj, hequal⟩

/-- The values that an aggregate keeps are the first occurrences of what is not Null. -/
theorem foldl_addDistinct (value : Nat → Value) (n : Nat) :
    (((List.range n).map value).filter (!·.isNull)).foldl Function.addDistinct [] =
      (freshPlaces Value.equal value n).map value := by
  induction n with
  | zero => rfl
  | succ n ih =>
    rw [List.range_succ, List.map_append, List.filter_append, List.foldl_append, ih, freshPlaces_succ,
      List.map_append, List.map_singleton, List.filter_singleton]
    cases hnull : (value n).isNull with
    | true => simp
    | false =>
      have hany : ((freshPlaces Value.equal value n).map value).any (·.equal (value n)) = true ↔
          ∃ j < n, (value j).equal (value n) = true := by
        rw [List.any_map, List.any_eq_true]
        constructor
        · rintro ⟨j, hj, hequal⟩
          exact ⟨j, (mem_freshPlaces.mp hj).1, hequal⟩
        · rintro ⟨j, hj, hequal⟩
          exact exists_freshPlace_of_equal hj hequal
      show Function.addDistinct _ _ = _
      rw [Function.addDistinct]
      by_cases h : ∃ j < n, (value j).equal (value n) = true
      · rw [if_pos (hany.mpr h), if_pos (.inr h)]
        simp
      · rw [if_neg (mt hany.mp h), if_neg (by simpa using h)]
        simp

/-- What falls into no earlier group equals no earlier value. -/
theorem freshPlaces_sublist (value : Nat → Value) (n : Nat) :
    (freshPlaces Value.sameKey value n).Sublist (freshPlaces Value.equal value n) := by
  refine List.monotone_filter_right _ fun k hk => ?_
  simp only [Bool.and_eq_true, List.all_eq_true, Bool.not_eq_true', List.mem_range] at hk ⊢
  refine ⟨hk.1, fun j hj => Bool.eq_false_iff.mpr fun hequal => ?_⟩
  have hsame := Value.sameKey_of_equal hequal
  rw [hk.2 j hj] at hsame
  cases hsame

/-- There are as many first occurrences for the one equality as for the other if what comes up twice in a group
equals itself, or is Null. -/
theorem length_freshPlaces_eq_iff : (freshPlaces Value.equal value n).length =
      (freshPlaces Value.sameKey value n).length ↔
    ∀ k < n, ∀ j < k, (value j).Same (value k) →
      value k = .null ∨ (value k).equal (value k) = true := by
  constructor
  · -- what equals nothing occurs first wherever it comes up, for the equality of conditions
    intro hlength k hk j hj hsame
    have heq := (freshPlaces_sublist value n).eq_of_length hlength.symm
    cases hnull : (value k).isNull with
    | true => exact .inl (Value.isNull_iff.mp hnull)
    | false =>
      refine .inr (by_contra fun hself => ?_)
      have hmem : k ∈ freshPlaces Value.equal value n :=
        mem_freshPlaces.mpr ⟨hk, hnull, fun i _ => Bool.eq_false_iff.mpr fun hequal =>
          hself (Value.equal_self_of_equal hequal)⟩
      rw [← heq] at hmem
      have hfalse := (mem_freshPlaces.mp hmem).2.2 j hj
      rw [(Value.sameKey_iff _ _).mpr hsame] at hfalse
      cases hfalse
  · intro h
    refine congrArg List.length (List.filter_congr fun k hk => Bool.eq_iff_iff.mpr ?_)
    simp only [Bool.and_eq_true, List.all_eq_true, Bool.not_eq_true', List.mem_range]
    refine and_congr_right fun hnull => forall₂_congr fun j hj => ?_
    rw [Bool.eq_false_iff, Bool.eq_false_iff]
    refine not_congr ⟨Value.sameKey_of_equal, fun hsame => ?_⟩
    obtain hnull' | hself := h k (List.mem_range.mp hk) j hj ((Value.sameKey_iff _ _).mp hsame)
    · rw [hnull'] at hnull
      cases hnull
    · exact Value.equal_of_sameKey hself hsame

/-- Of a value that stays the same there is one occurrence at most. -/
theorem freshPlaces_const (v : Value) (n : Nat) :
    freshPlaces Value.sameKey (fun _ => v) (n + 1) = freshPlaces Value.sameKey (fun _ => v) 1 := by
  induction n with
  | zero => rfl
  | succ n ih =>
    rw [freshPlaces_succ, if_pos (.inr ⟨0, n.succ_pos, v.sameKey_refl⟩), List.append_nil, ih]

theorem freshPlaces_congr {other : Nat → Value} (h : ∀ i < n, value i = other i) :
    freshPlaces same value n = freshPlaces same other n := by
  refine List.filter_congr fun k hk => ?_
  have hk := List.mem_range.mp hk
  rw [h k hk]
  refine congrArg _ (Bool.eq_iff_iff.mpr ?_)
  simp only [List.all_eq_true, List.mem_range]
  exact forall₂_congr fun j hj => by rw [h j (hj.trans hk)]

end freshPlaces

namespace View

variable {v : View} {value : Nat → Value}

/-- How many rows hold no Null. -/
def nonNull (v : View) : Nat := (List.range v.size).countP fun i => (v.cells i).all (!·.isNull)

/-- Distinct rows of one column that are not Null are the first occurrences in the column. -/
theorem nonNull_distinct (h : ∀ i < v.size, v.cells i = [value i]) :
    v.distinct.nonNull = (freshPlaces Value.sameKey value v.size).length := by
  have hplaces : ∀ i ∈ firstPlaces v.cells v.size, i < v.size := fun i hi => (mem_firstPlaces.mp hi).1
  have hcells : (List.range v.distinct.size).map v.distinct.cells =
      (firstPlaces v.cells v.size).map v.cells := by
    rw [← Step.map_range_getD (firstPlaces v.cells v.size) v.cells, distinct, size_take v hplaces]
    refine List.map_congr_left fun k hk => cells_take hplaces ?_
    simp [List.mem_range.mp hk]
  have hcount : v.distinct.nonNull =
      ((List.range v.distinct.size).map v.distinct.cells).countP (·.all (!·.isNull)) := by
    rw [nonNull, List.countP_map]
    rfl
  rw [hcount, hcells, List.countP_map, List.countP_eq_length_filter, firstPlaces, List.filter_filter]
  refine congrArg List.length (List.filter_congr fun k hk => ?_)
  have hk := List.mem_range.mp hk
  refine Bool.eq_iff_iff.mpr ?_
  simp only [Function.comp_apply, h k hk, Bool.and_eq_true, List.all_eq_true, List.mem_singleton,
    forall_eq, List.mem_range]
  refine and_congr_right fun _ => forall₂_congr fun j hj => ?_
  rw [h j (hj.trans hk), Value.sameKeys, Value.sameKeys, Bool.and_true]

end View

/-! ### Rows that remain -/

namespace Context

variable {engine : Engine} {c : Context}

/-- The rows that an aggregate goes over: those of the group of the first row, or else all. -/
def members (c : Context) : Frame := ((c.frame.rows[0]?).bind (·.group)).getD c.wholeGroup

theorem StandsFor.members {g : Frame} (hg : c.StandsFor g) : c.members = g := by
  rw [Context.members, hg.group]
  rfl

/-- What a condition has left of the rows of a source, if it has left any: some of them, or a row that stands for
a group of them. -/
structure Remaining (c : Context) : Prop where
  loaded : c.Loaded
  rows : c.Bare ∨ ∃ g, c.StandsFor g
  nonempty : c.size ≠ 0

namespace Remaining

variable (h : c.Remaining)
include h

theorem sourceEmpty : c.sourceEmpty = false := h.loaded.sourceEmpty

/-- No window has a result. -/
theorem windows (i : Nat) (label : String) :
    (c.frame.rows[i]?).bind (·.windows.get? label) = none := by
  obtain hbare | ⟨g, hg⟩ := h.rows
  · exact hbare.state rfl i
  · exact hg.windows label

theorem remembered? (engine : Engine) (i : Nat) (label : String) :
    c.remembered? engine i label = none := by
  obtain hbare | ⟨g, hg⟩ := h.rows
  · exact hbare.remembered? h.loaded.forgotten engine i label
  · rw [h.loaded.forgotten.remembered?, hg.keys]

theorem members_of_bare (hbare : c.Bare) : c.members = c.frame := by
  rw [members, hbare.state rfl 0, Option.getD_none, wholeGroup, h.sourceEmpty]
  rfl

theorem members_nonempty : c.members.size ≠ 0 := by
  obtain hbare | ⟨g, hg⟩ := h.rows
  · rw [h.members_of_bare hbare]
    exact h.nonempty
  · rw [hg.members]
    exact hg.nonempty

/-- An aggregate is called for the members, and a single row is left. -/
theorem exists_groupOf : ∃ d, Step.groupOf 0 c = .ok c.members d ∧ d.size = 1 ∧
    d.sourceEmpty = false := by
  obtain hbare | ⟨g, hg⟩ := h.rows
  · refine ⟨c.collapse, ?_, size_collapse h.nonempty, ?_⟩
    · rw [h.members_of_bare hbare]
      exact Step.groupOf_of_bare h.loaded hbare
    · rw [collapse_eq]
      exact h.sourceEmpty
  · refine ⟨{ c with aggregated := true }, ?_, hg.size, h.sourceEmpty⟩
    rw [hg.members]
    exact Step.groupOf_of_group hg.group

/-- The members give an expression the values that it has in the rows, or all of them the only one. -/
theorem exists_given {x : Expr} {value : Nat → Value} (hnamed : c.Named)
    (hx : x.AggregateFree engine.functions)
    (hvalue : ∀ i < c.size, (Step.evaluate engine x i false).runIn c = .ok (value i)) :
    ∃ given : Nat → Value,
      (∀ k < c.members.size,
        (Step.evaluate engine x k true).runIn (.ofFrame c.members) = .ok (given k)) ∧
      (∀ i < c.size, given i = value i) ∧
      freshPlaces Value.sameKey given c.members.size = freshPlaces Value.sameKey value c.size := by
  obtain hbare | ⟨g, hg⟩ := h.rows
  · refine ⟨value, fun k hk => ?_, fun _ _ => rfl, by rw [h.members_of_bare hbare]; rfl⟩
    rw [h.members_of_bare hbare] at hk ⊢
    exact Step.runIn_evaluate_of_offers
      (offers_ofFrame hnamed h.sourceEmpty h.loaded.forgotten hk) hx (hvalue k hk)
  · -- no column is read in the row that stands for the group, so all members give the value of that row
    refine ⟨fun _ => value 0, fun k hk => ?_, fun i hi => ?_, ?_⟩
    · rw [hg.members] at hk ⊢
      exact Step.runIn_evaluate_of_offers (hg.offers h.loaded hk) hx
        (hvalue 0 (Nat.pos_of_ne_zero h.nonempty))
    · rw [hg.size] at hi
      rw [Nat.lt_one_iff.mp hi]
    · obtain ⟨n, hn⟩ := Nat.exists_eq_succ_of_ne_zero h.members_nonempty
      rw [hn, freshPlaces_const, hg.size]
      exact freshPlaces_congr fun i hi => by rw [Nat.lt_one_iff.mp hi]

end Remaining

end Context

namespace Step

open Context

variable {engine : Engine} {c : Context} {x : Expr} {value : Nat → Value}

/-- The count of distinct values over rows in which an expression has values. -/
theorem aggregateOver_count_distinct {f : Frame} (hf : f.size ≠ 0) (hx : x.AggregateFree engine.functions)
    (hvalue : ∀ k < f.size, (evaluate engine x k true).runIn (.ofFrame f) = .ok (value k)) :
    aggregateOver "count" Function.count
        (fun i => Evaluator.values engine (Expr.evaluators engine [x]) i true) (some .distinct) f =
      .ok (.ofNat (freshPlaces Value.equal value f.size).length) := by
  have htuples : (rows fun i => Evaluator.values engine (Expr.evaluators engine [x]) i true).runIn
      (.ofFrame f) = .ok ((List.range f.size).map fun k => [value k]).toArray := by
    rw [((local_values engine [x] true).rows fun _ _ => .inr fun e he =>
      List.mem_singleton.mp he ▸ hx).runIn, size_ofFrame,
      mapM_eq_ok fun k hk => by
        rw [values_singleton, runIn_bind_pure, ← evaluate, hvalue k (List.mem_range.mp hk)]
        rfl]
    rfl
  have hfirst : Function.firstColumn ((List.range f.size).map fun k => [value k]) =
      ((List.range f.size).map value).filter (!·.isNull) := by
    rw [Function.firstColumn, List.filterMap_map]
    exact congrArg _ (congrFun (List.filterMap_eq_map (f := value)) _)
  have hcolumn : Function.column "count" ((List.range f.size).map fun k => [value k]) (some .distinct) =
      .ok ((freshPlaces Value.equal value f.size).map value) := by
    rw [Function.column, hfirst, foldl_addDistinct, if_neg]
    cases f.size <;> simp [List.range_succ_eq_map]
  rw [aggregateOver, htuples]
  show (Function.count _ _ _).mapError _ = _
  rw [Function.count, if_neg (by simpa using hf), hcolumn]
  show Except.ok (Value.ofNat _) = _
  rw [List.length_map]

/-- The count of distinct values is selected from the rows that remain. -/
theorem select_count_distinct (h : c.Remaining)
    (hcount : engine.functions.find? "count" = some (.aggregate Function.count))
    (hx : x.AggregateFree engine.functions)
    (hvalue : ∀ k < c.members.size,
      (evaluate engine x k true).runIn (.ofFrame c.members) = .ok (value k)) :
    (select engine [.expr (.call "count" (some .distinct) [x])] none [] none).runIn c =
      .ok ⟨[(Expr.call "count" (some .distinct) [x]).label],
        #[.ofList [((Expr.call "count" (some .distinct) [x]).label,
          .ofNat (freshPlaces Value.equal value c.members.size).length)]]⟩ := by
  obtain ⟨d, hgroup, hsize, hempty⟩ := h.exists_groupOf
  exact select_of_groupOf h.nonempty rfl (Expr.compute_of_call? engine rfl) (h.remembered? engine 0 _)
    hgroup hsize hempty ⟨nofun, Function.count, hcount,
      aggregateOver_count_distinct h.members_nonempty hx hvalue⟩

/-- The distinct values of an expression are selected from the rows that remain. -/
theorem select_distinct (h : c.Remaining) (hx : x.AggregateFree engine.functions)
    (hvalue : ∀ i < c.size, (evaluate engine x i false).runIn c = .ok (value i)) :
    ∃ w : View, w.size = c.size ∧ (∀ i < w.size, w.cells i = [value i]) ∧
      (select engine [.expr x] (some .distinct) [] none).runIn c = .ok w.distinct := by
  have hwindow : x.window? = none := window?_of_value h.sourceEmpty (h.windows 0)
    (h.remembered? engine 0) (hvalue 0 (Nat.pos_of_ne_zero h.nonempty))
  have hnames : columnNames [x] = .ok [x.bareName] := by
    simp [columnNames, Expr.columnName, duplicateLabel?]
  have hrow : ∀ i < c.size, (selectedRow engine [x] [x.bareName] i).runIn c =
      .ok (.ofList [(x.bareName, value i)]) := by
    intro i hi
    rw [selectedRow, runIn_bind_pure, values_singleton, runIn_bind_pure, ← evaluate, hvalue i hi]
    rfl
  -- without DISTINCT there is one cell for each row
  let w : View := ⟨[x.bareName],
    ((List.range c.size).map fun i => Labelled.ofList [(x.bareName, value i)]).toArray⟩
  have hw : w.size = c.size := by simp [View.size, w]
  have hview : (selectAll engine [.expr x] [] none).runIn c = .ok w :=
    (runIn_selectAll (itemExprs_exprs c [x]) hnames fun e he => List.mem_singleton.mp he ▸ hwindow).trans
      (project_of_rows h.nonempty h.sourceEmpty
        (fun _ _ => .inr fun e he => List.mem_singleton.mp he ▸ hx) hrow)
  obtain ⟨d, hselect⟩ := runIn_eq_ok.mp hview
  refine ⟨w, hw, fun i hi => ?_, ?_⟩
  · simp [View.cells, View.value, w, hw ▸ hi, Labelled.ofList]
  · rw [select.eq_def]
    dsimp only
    rw [runIn_bind_of_ok hselect, runIn_lift]
    exact distinctRows_eq (complete_selectAll _ _ _ trivial hselect)

end Step

namespace Statement

open Step

variable {engine : Engine} {tables : Tables} {source : Source}

/-- A query counts the distinct values of an expression in the rows that its condition leaves, and another one
gives them. The count is that of the values that are not Null, and more just if there come up, more than once in
a group, values that do not equal themselves. -/
theorem execute_count_distinct {aliases : List String} {s p : Context} {condition : Option Expr} {x : Expr}
    {value : Nat → Value}
    (hcount : engine.functions.find? "count" = some (.aggregate Function.count))
    (hjoins : ∀ on ∈ source.conditions, on.AggregateFree engine.functions)
    (hload : loadSource engine tables source {} = .ok aliases s)
    (hcondition : (condition.forM (filter engine)) s = .ok ⟨⟩ p) (hsize : p.size ≠ 0)
    (hx : x.AggregateFree engine.functions)
    (hvalue : ∀ i < p.size, (evaluate engine x i false).runIn p = .ok (value i)) :
    ∃ (given : Nat → Value) (counted : Nat) (v : View),
      (∀ k < p.members.size, (evaluate engine x k true).runIn (.ofFrame p.members) = .ok (given k)) ∧
      (∀ i < p.size, given i = value i) ∧
      execute engine tables (.select source
          { selecting [.expr (.call "count" (some .distinct) [x])] with condition := condition }) =
        .ok ⟨[(Expr.call "count" (some .distinct) [x]).label],
          #[.ofList [((Expr.call "count" (some .distinct) [x]).label, .ofNat counted)]]⟩ ∧
      execute engine tables (.select source
          { selecting [.expr x] with condition := condition, quantifier := some .distinct }) = .ok v ∧
      v.nonNull ≤ counted ∧
      (counted = v.nonNull ↔ ∀ k < p.members.size, ∀ j < k, (given j).Same (given k) →
        given k = .null ∨ (given k).equal (given k) = true) := by
  have hprepare : ∀ items quantifier, prepare engine
      { selecting items with condition := condition, quantifier := quantifier } s = .ok () p := by
    intro items quantifier
    show (condition.forM (filter engine) >>= _) s = _
    rw [bind_of_ok hcondition]
    rfl
  have hloaded : s.Loaded := loaded_loadSource engine tables source rfl hload
  have hbare : s.Bare := bare_loadSource engine tables source rfl hload
  have hnamed : p.Named := by
    have hs := (named_loadSource engine tables source hjoins rfl hload).1
    exact Ensures.forM_option _ (fun e _ => (lasting_named engine).filter (.inl trivial)) hs hcondition
  have hremaining : p.Remaining := by
    refine ⟨loaded_prepare rfl hloaded (hprepare [] none), ?_, hsize⟩
    cases condition with
    | none =>
      cases hcondition
      exact .inl hbare
    | some e => exact bare_or_standsFor_of_filter hbare hloaded hcondition hsize
  obtain ⟨given, hgiven, hsame, hplaces⟩ := hremaining.exists_given hnamed hx hvalue
  obtain ⟨w, hw, hcells, hdistinct⟩ := select_distinct hremaining hx hvalue
  have hnonNull : w.distinct.nonNull = (freshPlaces Value.sameKey given p.members.size).length := by
    rw [View.nonNull_distinct hcells, hplaces, hw]
  refine ⟨given, (freshPlaces Value.equal given p.members.size).length, w.distinct, hgiven, hsame, ?_, ?_,
    ?_, ?_⟩
  · exact (execute_of_prepared hload (hprepare _ none)).trans
      (select_count_distinct hremaining hcount hx hgiven)
  · exact (execute_of_prepared hload (hprepare _ (some .distinct))).trans hdistinct
  · rw [hnonNull]
    exact (freshPlaces_sublist given p.members.size).length_le
  · rw [hnonNull]
    exact length_freshPlaces_eq_iff

/-- A table in which a number comes up twice, and a list of Null once. -/
def withList : View := ⟨["x"], #[.ofList [("x", .ofNat 1)], .ofList [("x", .null)],
  .ofList [("x", .ofNat 1)], .ofList [("x", .list [.null])]]⟩

theorem execute_count_distinct_withList :
    ∃ v, execute .builtin (.ofList [("t", withList)]) (.select (.factor (.table "t" none))
        { selecting [.expr (.call "count" (some .distinct) [.field "x"])] with condition := none }) =
        .ok ⟨["count(distinct x)"], #[.ofList [("count(distinct x)", .ofNat v.nonNull)]]⟩ ∧
      execute .builtin (.ofList [("t", withList)]) (.select (.factor (.table "t" none))
        { selecting [.expr (.field "x")] with condition := none, quantifier := some .distinct }) =
        .ok v ∧ v.nonNull = 2 := by
  let p : Context := Context.after .builtin {} (.addView "t" withList)
  have hvalue : ∀ i < 4, (evaluate .builtin (.field "x") i false).runIn p = .ok (withList.value i "x") := by
    intro i hi
    obtain rfl | rfl | rfl | rfl : i = 0 ∨ i = 1 ∨ i = 2 ∨ i = 3 := by omega
    all_goals rfl
  obtain ⟨given, counted, v, -, hgiven, hcounted, hdistinct, -, hiff⟩ :=
    @execute_count_distinct .builtin (.ofList [("t", withList)]) (.factor (.table "t" none)) ["t"] p p
      none (.field "x") (fun i => withList.value i "x") rfl (by simp [Source.conditions]) rfl rfl
      (by decide +kernel) (.of_field _ "x") hvalue
  have htwo : (execute .builtin (.ofList [("t", withList)]) (.select (.factor (.table "t" none))
      { selecting [.expr (.field "x")] with
        condition := none, quantifier := some .distinct })).toOption.map View.nonNull = some 2 := by
    decide +kernel
  rw [hdistinct] at htwo
  -- the list of Null does not equal itself, but there is no other
  have hcount : counted = v.nonNull := by
    refine hiff.mpr fun k hk j hj hsame => ?_
    have hk : k < 4 := hk.trans_eq (by decide +kernel)
    have hsize : p.size = 4 := by decide +kernel
    rw [hgiven k (hsize ▸ hk)]
    rw [hgiven k (hsize ▸ hk), hgiven j (hsize ▸ hj.trans hk)] at hsame
    obtain rfl | rfl | rfl : k = 1 ∨ k = 2 ∨ k = 3 := by omega
    · exact .inl rfl
    · exact .inr (by decide +kernel)
    · obtain rfl | rfl | rfl : j = 0 ∨ j = 1 ∨ j = 2 := by omega
      all_goals cases hsame
  rw [hcount] at hcounted
  exact ⟨v, hcounted, hdistinct, Option.some.inj htwo⟩

/-- Two lists of Null are one distinct row, but each of them counts. -/
theorem not_forall_execute_count_distinct : ¬ ∀ (tables : Tables) (source : Source)
    (aliases : List String) (s p : Context) (condition : Option Expr) (x : Expr) (value : Nat → Value),
    (∀ on ∈ source.conditions, on.AggregateFree Engine.builtin.functions) →
    loadSource .builtin tables source {} = .ok aliases s →
    (condition.forM (filter .builtin)) s = .ok ⟨⟩ p → p.size ≠ 0 →
    x.AggregateFree Engine.builtin.functions →
    (∀ i < p.size, (evaluate .builtin x i false).runIn p = .ok (value i)) →
    ∃ v, execute .builtin tables (.select source
        { selecting [.expr x] with condition := condition, quantifier := some .distinct }) = .ok v ∧
      execute .builtin tables (.select source
        { selecting [.expr (.call "count" (some .distinct) [x])] with condition := condition }) =
        .ok ⟨[(Expr.call "count" (some .distinct) [x]).label],
          #[.ofList [((Expr.call "count" (some .distinct) [x]).label, .ofNat v.nonNull)]]⟩ := by
  intro h
  let lists : View := ⟨["x"], #[.ofList [("x", .list [.null])], .ofList [("x", .list [.null])]]⟩
  have hvalue : ∀ i < 2, (evaluate .builtin (.field "x") i false).runIn
      (Context.after .builtin {} (.addView "t" lists)) = .ok (.list [.null]) := by
    intro i hi
    obtain rfl | rfl : i = 0 ∨ i = 1 := by omega
    all_goals rfl
  obtain ⟨v, hdistinct, hcounted⟩ := h (.ofList [("t", lists)]) (.factor (.table "t" none)) ["t"] _ _
    none (.field "x") (fun _ => .list [.null]) (by simp [Source.conditions]) rfl rfl
    (by decide +kernel) (.of_field _ "x") hvalue
  have hone : (execute .builtin (.ofList [("t", lists)]) (.select (.factor (.table "t" none))
      { selecting [.expr (.field "x")] with
        condition := none, quantifier := some .distinct })).toOption.map View.nonNull = some 1 := by
    decide +kernel
  rw [hdistinct] at hone
  have htwo : (execute .builtin (.ofList [("t", lists)]) (.select (.factor (.table "t" none))
      { selecting [.expr (.call "count" (some .distinct) [.field "x"])] with condition := none })).toOption.map
      (fun w => (w.value 0 "count(distinct x)").equal (.ofNat 2)) = some true := by decide +kernel
  rw [hcounted, Option.some.inj hone] at htwo
  exact absurd htwo (by decide +kernel)

end Statement

end TableQuery
