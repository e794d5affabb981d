/-
Joins on fields that no view declares.

The condition of a join is tried on a pair of rows at least, so a field in it that its view does not declare
is noticed. The exception is a field of the new view with its alias in front of it: rows are found by their
keys then, in a column that is not there and so is Null throughout, and the condition is never tried.

* `Context.fieldError?` — why a field cannot be read, which is the same in every row;
* `Frame.Undeclared` — an expression is a field that its view does not declare;
* `Context.equalityKeys?_eq_none` — rows are not found by keys that are not declared;
* `Step.leftJoin_of_undeclared` — the join fails with the error that its condition gives on any pair of rows.
-/
import TableQuery.Proofs.LeftJoin
import TableQuery.Proofs.Resolution

namespace TableQuery

/-- The expression is a field, with or without an alias in front of it. -/
def Expr.IsField (e : Expr) : Prop :=
  (∃ name, e.body = .field name) ∨ ∃ table name, e.body = .qualified table name

/-- The expression is a field that its view does not declare: no view does, or none under the alias in front
of the field. -/
def Frame.Undeclared (f : Frame) (e : Expr) : Prop :=
  (∃ name, e.body = .field name ∧ ∀ t, ¬f.Declares t name) ∨
    ∃ table name, e.body = .qualified table name ∧ ¬f.Declares table name

theorem Frame.Undeclared.isField {f : Frame} {e : Expr} (h : f.Undeclared e) : e.IsField :=
  h.imp (fun ⟨name, hbody, _⟩ => ⟨name, hbody⟩) fun ⟨table, name, hbody, _⟩ => ⟨table, name, hbody⟩

theorem Frame.declares_congr {f g : Frame} (h : f.headers = g.headers) (table field : String) :
    f.Declares table field ↔ g.Declares table field := by
  rw [declares_iff, declares_iff, h]

theorem Frame.Undeclared.congr {f g : Frame} {e : Expr} (h : f.Undeclared e)
    (hheaders : g.headers = f.headers) : g.Undeclared e := by
  obtain ⟨name, hbody, h⟩ | ⟨table, name, hbody, h⟩ := h
  · exact .inl ⟨name, hbody, fun t => mt (declares_congr hheaders t name).mp (h t)⟩
  · exact .inr ⟨table, name, hbody, mt (declares_congr hheaders table name).mp h⟩

theorem Frame.Declares.push_left {f : Frame} {table field : String} (h : f.Declares table field)
    (other : String) (v : View) : (f.push other v).Declares table field := by
  obtain ⟨w, hw, hfield⟩ := h
  exact ⟨w, List.mem_append_left _ hw, hfield⟩

theorem Frame.declares_push_self (f : Frame) (table : String) {v : View} {field : String}
    (h : v.declares field = true) : (f.push table v).Declares table field :=
  ⟨v, List.mem_append_right _ List.mem_cons_self, h⟩

theorem Frame.declares_of_view? {f : Frame} {table field : String} {v : View}
    (hv : f.view? table = some v) (h : v.declares field = true) : f.Declares table field := by
  obtain ⟨before, after, hviews, -⟩ := List.lookup_eq_some_iff.mp hv
  exact ⟨v, by rw [hviews]; simp, h⟩

namespace Context

variable {engine : Engine} {c : Context} {e : Expr} {table : String} {right : View} {on l r : Expr}
  {aliases : List String}

/-! ### Why a field cannot be read -/

/-- Why the field that an expression is cannot be read, if it cannot. -/
def fieldError? (c : Context) (e : Expr) : Option ExecutionError :=
  match e.body with
  | .field name =>
    match c.resolve name with
    | .ok _ => none
    | .error error => some error
  | .qualified table name =>
    match c.frame.view? table with
    | some v => if v.declares name then none else some (.unknownTableField table name)
    | none => some (if c.collapsed then .mixedAggregate else .unknownTable table)
  | _ => none

theorem fieldError?_field {name : String} (h : e.body = .field name) (c : Context) :
    c.fieldError? e = match c.resolve name with
      | .ok _ => none
      | .error error => some error := by
  rw [fieldError?, h]

theorem fieldError?_qualified {name : String} (h : e.body = .qualified table name) (c : Context) :
    c.fieldError? e = match c.frame.view? table with
      | some v => if v.declares name then none else some (.unknownTableField table name)
      | none => some (if c.collapsed then .mixedAggregate else .unknownTable table) := by
  rw [fieldError?, h]

/-- A field is read, or else there is a reason why it cannot be. -/
theorem value_of_isField (engine : Engine) (he : e.IsField) (c : Context) (i : Nat) :
    match c.fieldError? e with
    | some error => (e.evaluator engine).value engine i false c = .error error c
    | none => ∃ x, (e.evaluator engine).value engine i false c =
        .ok x { c with sawPlainColumn := true } := by
  obtain ⟨name, hbody⟩ | ⟨table, name, hbody⟩ := he
  · rw [fieldError?_field hbody, Expr.value_of_body_field engine hbody, Step.readField_apply]
    cases c.resolve name with
    | ok table => exact ⟨_, rfl⟩
    | error error => rfl
  · rw [fieldError?_qualified hbody, Expr.value_of_body_qualified engine hbody,
      Step.readQualified_apply]
    cases c.frame.view? table with
    | none => rfl
    | some v =>
      dsimp only
      cases v.declares name with
      | true => exact ⟨_, rfl⟩
      | false => rfl

/-- A field that its view does not declare cannot be read. -/
theorem fieldError?_of_undeclared (hc : c.Resolved) (h : c.frame.Undeclared e) :
    (c.fieldError? e).isSome = true := by
  obtain ⟨name, hbody, h⟩ | ⟨table, name, hbody, h⟩ := h
  · rw [fieldError?_field hbody, (hc.unknown name).mpr h]
    rfl
  · rw [fieldError?_qualified hbody]
    cases hview : c.frame.view? table with
    | none => rfl
    | some v =>
      cases hdeclares : v.declares name with
      | true => exact absurd (Frame.declares_of_view? hview hdeclares) h
      | false =>
        simp only [hdeclares, Bool.false_eq_true, if_false]
        rfl

/-- Why a field cannot be read in a pair of rows does not depend on the pairs. -/
theorem fieldError?_joined (c : Context) (table : String) (right : View) (he : e.IsField)
    (pairs others : List RowPair) :
    (c.joined table right pairs).fieldError? e = (c.joined table right others).fieldError? e := by
  obtain ⟨name, hbody⟩ | ⟨t, name, hbody⟩ := he
  · rw [fieldError?_field hbody, fieldError?_field hbody]
    rfl
  · have hview : ∀ pairs, (c.joined table right pairs).frame.view? t =
        ((c.frame.view? t).map (·.take (pairs.map Prod.fst))).or
          (if t == table then some (right.paired pairs) else none) := by
      intro pairs
      rw [← Frame.view?_take, ← Frame.view?_push]
      rfl
    rw [fieldError?_qualified hbody, fieldError?_qualified hbody, hview, hview]
    cases c.frame.view? t with
    | some v => rfl
    | none => cases t == table <;> rfl

/-- The error of an equality of two fields is that of the first of them that cannot be read. -/
theorem runIn_equality_of_fieldError? {i : Nat} {error : ExecutionError}
    (hbody : on.body = .binary .eq l r) (hl : l.IsField) (hr : r.IsField)
    (hmemo : c.remembered? engine i on.label = none)
    (h : (c.fieldError? l).or (c.fieldError? r) = some error) :
    ((on.evaluator engine).value engine i false).runIn c = .error error := by
  have hlabel : (on.evaluator engine).label? = some on.label := by
    rw [Expr.label?_evaluator, Expr.rememberedLabel?, Expr.isRemembered, hbody]
    rfl
  rw [Evaluator.runIn_value_of_not_remembered hlabel hmemo, Expr.compute_evaluator_body, hbody,
    Expr.evaluator]
  have hleft := value_of_isField engine hl c i
  cases hle : c.fieldError? l with
  | some _ =>
    rw [hle] at h hleft
    cases h
    exact Step.runIn_bind_of_error hleft
  | none =>
    rw [hle] at h hleft
    obtain ⟨x, hx⟩ := hleft
    have hright := value_of_isField engine hr { c with sawPlainColumn := true } i
    have hre : fieldError? { c with sawPlainColumn := true } r = some error := h
    rw [hre] at hright
    exact (Step.runIn_bind_of_ok hx).trans (Step.runIn_bind_of_error hright)

/-! ### Joined views -/

theorem headers_joined (c : Context) (table : String) (right : View) (pairs : List RowPair) :
    (c.joined table right pairs).frame.headers = (c.frame.push table right).headers := by
  show ((c.frame.take _).push table _).headers = _
  rw [Frame.headers_push, Frame.headers_push, Frame.headers_take]
  rfl

/-- With a new view beside the others fields are resolved as all of them declare them. -/
theorem Named.resolved_joined (hc : c.Named) (halias : c.frame.view? table = none) (right : View)
    (pairs : List RowPair) : (c.joined table right pairs).Resolved := by
  refine Tracks.resolved ?_ ?_ <;> rw [headers_joined, Frame.headers_push]
  · exact (hc.tracks.registerFields table right.fields).congr rfl rfl
  · exact Step.nodup_headers_push hc.nodup halias right.fields

/-- The sides of an equality by which rows are found are declared, if the new view declares its own. -/
theorem equalityKeys?_eq_none (hbody : on.body = .binary .eq l r)
    (hunknown : (c.frame.push table right).Undeclared l ∨ (c.frame.push table right).Undeclared r)
    (hright : ∀ key field, c.equalityKeys? on aliases table right = some (key, field) →
      right.declares field = true) :
    c.equalityKeys? on aliases table right = none := by
  cases hfound : c.equalityKeys? on aliases table right with
  | none => rfl
  | some found =>
    obtain ⟨key, field⟩ := found
    obtain ⟨other, o, o', hsides, ⟨hown, -, hleft⟩, hown', rfl, rfl⟩ := equalityKeys?_eq_some hfound
    -- a side that belongs to a view which declares it is declared
    have hdeclared : ∀ {e : Expr} {o : FieldOwner}, c.fieldOwner? e o'.table right = some o →
        (c.frame.push o'.table right).Declares o.table o.name →
        ¬(c.frame.push o'.table right).Undeclared e := by
      rintro e o hown hdeclares (⟨name, hfield, hnone⟩ | ⟨t, name, hqualified, hnone⟩)
      · obtain hother | ⟨hother, -⟩ := fieldOwner?_eq_some hown
        · cases hfield.symm.trans hother
        · cases hfield.symm.trans hother
          exact hnone o.table hdeclares
      · obtain hother | ⟨hother, -⟩ := fieldOwner?_eq_some hown
        · cases hqualified.symm.trans hother
          exact hnone hdeclares
        · cases hqualified.symm.trans hother
    have hkey : ¬(c.frame.push o'.table right).Undeclared key := by
      obtain ⟨-, hview⟩ : aliases.contains o.table = true ∧
          (c.frame.view? o.table).any (·.declares o.name) = true := by
        simpa [isLeftField] using hleft
      obtain ⟨v, hv, hdeclares⟩ := (Option.any_eq_true _ _).mp hview
      exact hdeclared hown ((Frame.declares_of_view? hv hdeclares).push_left _ _)
    have hother : ¬(c.frame.push o'.table right).Undeclared other :=
      hdeclared hown' (Frame.declares_push_self _ _ (hright _ _ hfound))
    obtain hsides | hsides := hsides
    · cases hbody.symm.trans hsides
      exact absurd hunknown (not_or.mpr ⟨hkey, hother⟩)
    · cases hbody.symm.trans hsides
      exact absurd hunknown (not_or.mpr ⟨hother, hkey⟩)

end Context

namespace Step

variable {engine : Engine} {c : Context} {table : String} {right : View} {on l r : Expr}
  {aliases : List String} {error : ExecutionError}

theorem allPairs_succ (left right : Nat) :
    ∃ rest, allPairs (left + 1) (right + 1) = (0, some 0) :: rest := by
  rw [allPairs, List.range_succ_eq_map, List.range_succ_eq_map]
  exact ⟨_, rfl⟩

/-- Trying a condition fails when it fails on the first pair. -/
theorem tryPairs_of_error {rest : List RowPair} {j : Nat}
    (h : ((on.evaluator engine).holds engine 0).runIn (c.joined table right ((0, some j) :: rest)) =
      .error error) :
    ∃ d, tryPairs engine ((0, some j) :: rest) table right on c = .error error d := by
  obtain ⟨d, h⟩ := runIn_eq_error.mp h
  have hfirst : tryPair engine (on.evaluator engine) ((0, some j), 0)
      (c.joined table right ((0, some j) :: rest)) = .error error d := bind_of_error h
  have htried : (((0, some j) :: rest).zipIdx.mapM (tryPair engine (on.evaluator engine)))
      (c.joined table right ((0, some j) :: rest)) = .error error d := by
    rw [List.zipIdx_cons, List.mapM_cons]
    exact bind_of_error hfirst
  refine ⟨d, ?_⟩
  rw [tryPairs, get_bind]
  exact (bind_of_ok rfl).trans (bind_of_error htried)

/-- A left join of rows on an equality of two fields, one of which its view does not declare, fails with the
error that the equality gives on any pair of rows. When the field has the alias of the new view in front of
it, the other one must not be a field by which rows are found. -/
theorem leftJoin_of_undeclared (engine : Engine) (aliases : List String) (hc : c.Named) (halias : c.frame.view? table = none)
    (hleft : 0 < c.size) (hrows : 0 < right.size) (hbody : on.body = .binary .eq l r)
    (hl : l.IsField) (hr : r.IsField)
    (hunknown : (c.frame.push table right).Undeclared l ∨ (c.frame.push table right).Undeclared r)
    (hkeys : ∀ row ∈ c.frame.rows, row.keys.get? on.label = none)
    (hright : ∀ key field, c.equalityKeys? on aliases table right = some (key, field) →
      right.declares field = true) :
    ∃ error d, leftJoin engine aliases table right on c = .error error d ∧
      ∀ i < c.size, ∀ j < right.size,
        ((c.joined table right [(i, some j)]).fieldError? l).or
            ((c.joined table right [(i, some j)]).fieldError? r) = some error ∧
          (evaluate engine on 0 false).runIn (c.joined table right [(i, some j)]) = .error error := by
  have hsome : (((c.joined table right []).fieldError? l).or
      ((c.joined table right []).fieldError? r)).isSome = true := by
    have hresolved := hc.resolved_joined halias right []
    rw [Option.isSome_or, Bool.or_eq_true]
    exact hunknown.imp (fun h => Context.fieldError?_of_undeclared hresolved
      (h.congr (c.headers_joined table right []))) fun h =>
        Context.fieldError?_of_undeclared hresolved (h.congr (c.headers_joined table right []))
  obtain ⟨error, herror⟩ := Option.isSome_iff_exists.mp hsome
  -- the reason is the same whatever the pairs are
  have hpairs : ∀ pairs, ((c.joined table right pairs).fieldError? l).or
      ((c.joined table right pairs).fieldError? r) = some error := by
    intro pairs
    rw [c.fieldError?_joined table right hl pairs [], c.fieldError?_joined table right hr pairs [], herror]
  have hvalue : ∀ (pairs : List RowPair) (i : Nat) (j : Option Nat), i < c.size →
      pairs[0]? = some (i, j) →
      ((on.evaluator engine).value engine 0 false).runIn (c.joined table right pairs) =
        .error error := by
    intro pairs i j hi hfirst
    exact Context.runIn_equality_of_fieldError? hbody hl hr
      (remembered?_joined engine table right hfirst hi hkeys) (hpairs pairs)
  obtain ⟨m, hm⟩ := Nat.exists_eq_succ_of_ne_zero (Nat.ne_of_gt hleft)
  obtain ⟨n, hn⟩ := Nat.exists_eq_succ_of_ne_zero (Nat.ne_of_gt hrows)
  obtain ⟨rest, hrest⟩ := allPairs_succ m n
  obtain ⟨d, hd⟩ : ∃ d, tryPairs engine (allPairs c.size right.size) table right on c =
      .error error d := by
    rw [hm, hn, hrest]
    refine tryPairs_of_error ?_
    obtain ⟨d, hd⟩ := runIn_eq_error.mp (hvalue ((0, some 0) :: rest) 0 (some 0) hleft rfl)
    exact runIn_bind_of_error hd
  refine ⟨error, d, ?_, fun i hi j _ => ⟨hpairs _, hvalue _ i (some j) hi rfl⟩⟩
  have hempty : ¬(c.size = 0 ∨ right.size = 0) := by omega
  rw [leftJoin, get_bind, halias, Context.equalityKeys?_eq_none hbody hunknown hright]
  simp only [Option.isSome_none, Bool.false_eq_true, if_false, hempty]
  exact (bind_of_ok rfl).trans (bind_of_error hd)

/-- The points, a field `x` of which equals a field that no view declares. -/
def atMissing : Expr := .binary .eq (.qualified "a" "x") (.field "z")

theorem leftJoin_of_undeclared_points : ∃ error d,
    leftJoin .builtin ["a"] "b" heights atMissing pointsContext = .error error d ∧
      (evaluate .builtin atMissing 0 false).runIn (pointsContext.joined "b" heights [(1, some 0)]) =
        .error error := by
  have hnamed : pointsContext.Named := Context.named_empty.after trivial
  have hdeclares : ∀ t, ¬(pointsContext.frame.push "b" heights).Declares t "z" := by
    rintro t ⟨v, hv, hz⟩
    have hviews : (pointsContext.frame.push "b" heights).views.all
        (fun p => !p.2.declares "z") = true := by decide +kernel
    simpa [hz] using List.all_eq_true.mp hviews (t, v) hv
  have hmissing : (pointsContext.frame.push "b" heights).Undeclared (.field "z") :=
    .inl ⟨"z", rfl, hdeclares⟩
  have hbody : atMissing.body = .binary .eq (.qualified "a" "x") (.field "z") := rfl
  obtain ⟨error, d, hjoin, hpair⟩ := leftJoin_of_undeclared .builtin ["a"] hnamed (by decide +kernel)
    (by decide +kernel) (by decide +kernel) hbody (.inr ⟨"a", "x", rfl⟩) hmissing.isField
    (.inr hmissing) (by decide +kernel) (fun _ _ h => by cases h)
  exact ⟨error, d, hjoin, (hpair 1 (by decide +kernel) 0 (by decide +kernel)).2⟩

/-! ### Rows found by a key that is not declared -/

/-- No row is found by a key that is Null in every row on the right. -/
theorem mergeKeys_of_null {left right : List RowKey} (hl : SortedKeys left) (hr : SortedKeys right)
    (hnull : ∀ r ∈ right, r.1.isNull = true) :
    mergeKeys left right = left.map fun l => (l.2, none) := by
  rw [mergeKeys_eq_flatMap hl hr, ← List.map_eq_flatMap.symm]
  refine List.flatMap_congr fun l _ => ?_
  have hnone : (right.filter fun r => !l.1.isNull && r.sortsAs l.1) = [] := by
    refine List.filter_eq_nil_iff.mpr fun r hr' => ?_
    intro h
    obtain ⟨hl, hsorts⟩ : l.1.isNull = false ∧ r.1.sortCompare l.1 = .eq := by
      simpa [RowKey.sortsAs] using h
    have hsame := Value.isNull_eq_of_sortCompare hsorts
    rw [hnull r hr', hl] at hsame
    contradiction
  rw [RowKey.candidates, hnone]
  rfl

/-- Pairs with nothing are kept without trying the condition. -/
theorem tryPairs_of_unmatched {candidates : List RowPair} (h : ∀ p ∈ candidates, p.2 = none) :
    Answers (tryPairs engine candidates table right on) c (fun _ d => d.frame = c.frame)
      (.ok (outerPairs (candidates.map (tested fun _ _ => false)))) := by
  have hpair : ∀ q ∈ candidates.zipIdx, ∀ d,
      Answers (tryPair engine (on.evaluator engine) q) d (fun _ d' => d' = d)
        (.ok (tested (fun _ _ => false) q.1)) := by
    intro q hq d
    have hnone : q.1.2 = none := h q.1 (List.fst_mem_of_mem_zipIdx hq)
    rw [tryPair, tested, hnone]
    exact .pure rfl
  have htried := Answers.mapM (f := tryPair engine (on.evaluator engine))
    (I := fun _ d => d = c.joined table right candidates) candidates.zipIdx [] rfl
    (g := fun q => .ok (tested (fun _ _ => false) q.1)) fun before q after d hd he => by
      refine (hpair q ?_ d).mono fun _ _ _ hd' => hd'.trans he
      rw [show candidates.zipIdx = before ++ q :: after from hd]
      simp
  have hresult := congrArg (List.map (tested fun _ _ => false)) (List.zipIdx_map_fst 0 candidates)
  rw [List.map_map] at hresult
  rw [mapM_eq_ok fun q _ => rfl] at htried
  rw [← hresult]
  exact Answers.of_eq (htried.bind (g := fun tried => .ok (outerPairs tried)) (f := fun tried => do
    modify fun d => { d with frame := c.frame, memo := c.memo }
    return outerPairs tried) fun tried d _ _ => .ok rfl rfl) rfl

/-- When rows are found by a field that the new view has no cells of, the join does not fail: it pairs every
row with nothing, whether the view declares the field or not. -/
theorem leftJoin_of_null_keys {key : Expr} {field : String} {keyOf : Nat → Value}
    (halias : c.frame.view? table = none)
    (hfound : c.equalityKeys? on aliases table right = some (key, field))
    (hreads : ∀ i, c.Reads engine key i (keyOf i))
    (hnull : ∀ j < right.size, (right.value j field).isNull = true) :
    ∃ pairs d, leftJoin engine aliases table right on c = .ok (aliases ++ [table]) d ∧
      d.frame = (c.frame.take (pairs.map Prod.fst)).push table (right.paired pairs) ∧
      pairs.Perm ((List.range c.size).map fun i => (i, none)) := by
  let left := sortRowKeys (rowKeys keyOf c.size)
  let keys := sortRowKeys (rowKeys (fun j => right.value j field) right.size)
  have hkeys : ∀ r ∈ keys, r.1.isNull = true := by
    intro r hr
    obtain ⟨j, hj, rfl⟩ := List.mem_map.mp ((sortRowKeys_perm _).subset hr)
    exact hnull j (List.mem_range.mp hj)
  -- no row is found by a key of Null
  have hunmatched : ∀ p ∈ mergeKeys left keys, p.2 = none := by
    intro p hp
    rw [mergeKeys_of_null (sortedKeys_sortRowKeys _) (sortedKeys_sortRowKeys _) hkeys] at hp
    obtain ⟨l, -, rfl⟩ := List.mem_map.mp hp
    rfl
  have hmerged : Answers (do
      let candidates ← mergePairs engine key right field
      tryPairs engine candidates table right on) c (fun _ d => d.frame = c.frame)
      (.ok (outerPairs ((mergeKeys left keys).map (tested fun _ _ => false)))) := by
    refine (mergePairs_answers hreads right field).bind
      (g := fun candidates => .ok (outerPairs (candidates.map (tested fun _ _ => false))))
      fun candidates d h ht => ?_
    cases h
    exact (tryPairs_of_unmatched hunmatched).mono fun _ _ _ hd => hd.trans ht.frame
  by_cases hempty : c.size = 0 ∨ right.size = 0
  · obtain ⟨d, hd, hframe⟩ := leftJoin_of_pairs halias
      (by rw [if_pos hempty]; exact .pure rfl)
    exact ⟨_, d, hd, hframe, .refl _⟩
  · obtain ⟨d, hd, hframe⟩ := leftJoin_of_pairs halias (by rw [if_neg hempty, hfound]; exact hmerged)
    have hnone : joinedPairs c.size right.size (fun _ _ => false) =
        (List.range c.size).map fun i => (i, none) := by
      simp [joinedPairs, joinedRow, List.map_eq_flatMap]
    refine ⟨_, d, hd, hframe, ?_⟩
    exact hnone ▸ outerPairs_mergeKeys_perm fun i _ j _ h => absurd h Bool.false_ne_true

/-- The condition `a.x = b.z`, the second field of which is not declared. -/
def atUndeclared : Expr := .binary .eq (.qualified "a" "x") (.qualified "b" "z")

/-- With the alias of the new view in front of it, an undeclared field may go unnoticed: the join succeeds,
although the condition fails on every pair. -/
theorem not_forall_leftJoin_of_undeclared : ¬ ∀ (engine : Engine) (c : Context)
    (aliases : List String) (table : String) (right : View) (on l r : Expr),
    c.Reachable engine → c.frame.view? table = none → 0 < c.size → 0 < right.size →
    on.body = .binary .eq l r → l.IsField → r.IsField →
    ((c.frame.push table right).Undeclared l ∨ (c.frame.push table right).Undeclared r) →
    ∃ error d, leftJoin engine aliases table right on c = .error error d ∧
      ∀ i < c.size, ∀ j < right.size,
        (evaluate engine on 0 false).runIn (c.joined table right [(i, some j)]) = .error error := by
  intro h
  have hundeclared : (pointsContext.frame.push "b" heights).Undeclared (.qualified "b" "z") := by
    refine .inr ⟨"b", "z", rfl, ?_⟩
    rintro ⟨v, hv, hz⟩
    have hviews : (pointsContext.frame.push "b" heights).views.all
        (fun p => !p.2.declares "z") = true := by decide +kernel
    simpa [hz] using List.all_eq_true.mp hviews ("b", v) hv
  obtain ⟨error, d, hjoin, -⟩ := h .builtin pointsContext ["a"] "b" heights atUndeclared _ _
    (Context.Reachable.start.after _) (by decide +kernel) (by decide +kernel) (by decide +kernel) rfl
    (.inr ⟨"a", "x", rfl⟩) hundeclared.isField (.inr hundeclared)
  have hfound : pointsContext.equalityKeys? atUndeclared ["a"] "b" heights =
      some (.qualified "a" "x", "z") := by rfl
  have hown : pointsContext.fieldOwner? (.qualified "a" "x") "b" heights = some ⟨"a", "x"⟩ := rfl
  have hleft : pointsContext.isLeftField ["a"] ⟨"a", "x"⟩ = true := by decide +kernel
  obtain ⟨hreads, -⟩ := Context.reads_left .builtin hown (by decide) hleft
  obtain ⟨pairs, d', hok, -⟩ := leftJoin_of_null_keys (by decide +kernel) hfound hreads
    (by decide +kernel)
  exact absurd (hjoin.symm.trans hok) (by simp)

end Step

end TableQuery
