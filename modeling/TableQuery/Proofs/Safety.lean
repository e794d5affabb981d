/-
Errors that lie with the query.

A step is safe in a context if it gives a value there, or fails with an error that is not internal
(`Step.Safe`). What reads no results of windows is safe everywhere (`Step.AlwaysSafe`), as long as the
functions keep their side of the bargain (`Registry.Regular`), which those of the library do.

* `Registry.regular_builtin` — the functions of the library;
* `Step.alwaysSafe_values` — expressions without windows;
* `Step.alwaysSafe_groupBy`, `Step.alwaysSafe_leftJoin` — operations that evaluate such expressions alone.
-/
import TableQuery.Proofs.Recomputed

namespace TableQuery

/-! ### Functions -/

/-- Functions do not report a wrong count of values, and window functions give as many values as there
are rows. -/
structure Registry.Regular (r : Registry) : Prop where
  scalar : ∀ {name f values e}, r.find? name = some (.scalar f) → f values = .error e →
    (ExecutionError.function name e).isInternal = false
  aggregate : ∀ {name f tuples empty q e}, r.find? name = some (.aggregate f) →
    f tuples empty q = .error e → (ExecutionError.function name e).isInternal = false
  window : ∀ {name f p e}, r.find? name = some (.window f) → f p = .error e →
    (ExecutionError.function name e).isInternal = false
  results : ∀ {name f p values}, r.find? name = some (.window f) →
    p.keys.length = p.tuples.length → f p = .ok values → values.length = p.tuples.length

namespace Function

/-- A result of a function that is no report of a wrong count of values. -/
def NoCount {α : Type} (result : Except FunctionError α) : Prop :=
  ∀ e name, result = .error e → (ExecutionError.function name e).isInternal = false

namespace NoCount

variable {α β : Type}

theorem ok (a : α) : NoCount (.ok a) := fun _ _ h => by cases h

theorem error {e : FunctionError} (h : ∀ name, (ExecutionError.function name e).isInternal = false) :
    NoCount (.error e : Except FunctionError α) := by
  rintro _ name ⟨⟩
  exact h name

theorem bind {x : Except FunctionError α} {f : α → Except FunctionError β} (h : NoCount x)
    (hf : ∀ a, NoCount (f a)) : NoCount (x >>= f) := by
  cases x with
  | ok a => exact hf a
  | error e =>
    rintro _ name ⟨⟩
    exact h e name rfl

theorem map {x : Except FunctionError α} (f : α → β) (h : NoCount x) : NoCount (x.map f) := by
  cases x with
  | ok a => exact .ok (f a)
  | error e =>
    rintro _ name ⟨⟩
    exact h e name rfl

theorem foldlM {f : β → α → Except FunctionError β} (h : ∀ b a, NoCount (f b a)) (l : List α) :
    ∀ b, NoCount (l.foldlM f b) := by
  induction l with
  | nil => exact fun b => .ok b
  | cons a l ih => exact fun b => (h b a).bind ih

end NoCount

theorem noCount_roundTo (x digits : Float) : NoCount (roundTo x digits) := by
  rw [roundTo]
  split
  · exact .error fun _ => rfl
  · split
    · exact .error fun _ => rfl
    · exact .ok _

theorem noCount_round (values : List Value) : NoCount (round values) := by
  rw [round.eq_def]
  split
  · exact .ok _
  · exact .ok _
  · exact .ok _
  · exact .ok _
  · exact noCount_roundTo _ _
  · exact .error fun _ => rfl
  · exact .error fun _ => rfl
  · exact .error fun _ => rfl
  · exact .error fun _ => rfl

theorem noCount_concat (values : List Value) : NoCount (concat values) := by
  rw [concat]
  split <;> exact .ok _

theorem noCount_split (values : List Value) : NoCount (split values) := by
  rw [split.eq_def]
  split
  · exact .ok _
  · exact .ok _
  · exact .ok _
  · exact .error fun _ => rfl
  · exact .error fun _ => rfl

theorem noCount_column (name : String) (tuples : Tuples) (q : Option Quantifier) :
    NoCount (column name tuples q) := by
  rw [column.eq_def]
  split
  · exact .error fun _ => rfl
  · split
    · exact .ok _
    · exact .ok _
    · exact .error fun _ => rfl

theorem noCount_numbers (name : String) (values : List Value) : NoCount (numbers name values) := by
  induction values with
  | nil => exact .ok _
  | cons v values ih =>
    cases v with
    | number x => exact ih.map _
    | _ => exact .error fun _ => rfl

theorem noCount_count (tuples : Tuples) (empty : Bool) (q : Option Quantifier) :
    NoCount (count tuples empty q) := by
  rw [count]
  split
  · exact .ok _
  · exact (noCount_column _ _ _).map _

theorem noCount_sum (tuples : Tuples) (empty : Bool) (q : Option Quantifier) :
    NoCount (sum tuples empty q) := by
  rw [sum]
  split
  · exact .ok _
  · refine (noCount_column _ _ _).bind fun values => (noCount_numbers _ values).bind fun xs => ?_
    split <;> exact .ok _

theorem noCount_avg (tuples : Tuples) (empty : Bool) (q : Option Quantifier) :
    NoCount (avg tuples empty q) := by
  rw [avg]
  split
  · exact .ok _
  · refine (noCount_column _ _ _).bind fun values => (noCount_numbers _ values).bind fun xs => ?_
    split <;> exact .ok _

theorem noCount_better (name : String) (wanted : Ordering) (current new : Value) :
    NoCount (better name wanted current new) := by
  rw [better]
  split
  · exact .ok _
  · split
    · exact .ok _
    · exact .error fun _ => rfl

theorem noCount_extreme (name : String) (wanted : Ordering) (tuples : Tuples) (empty : Bool)
    (q : Option Quantifier) : NoCount (extreme name wanted tuples empty q) := by
  rw [extreme]
  split
  · exact .ok _
  · refine (noCount_column _ _ _).bind fun values => ?_
    split
    · exact .ok _
    · exact .foldlM (noCount_better name wanted) _ _

theorem noCount_refuseArguments (name : String) (p : SortedPartition) :
    NoCount (refuseArguments name p) := by
  rw [refuseArguments]
  split
  · exact .error fun _ => rfl
  · exact .ok _

theorem noCount_rowNumber (p : SortedPartition) : NoCount (rowNumber p) :=
  (noCount_refuseArguments _ p).bind fun _ => .ok _

theorem noCount_rank (p : SortedPartition) : NoCount (rank p) := by
  refine (noCount_refuseArguments _ p).bind fun _ => ?_
  split
  · exact .error fun _ => rfl
  · exact .ok _

theorem length_rowNumber {p : SortedPartition} {values : List Value} (h : rowNumber p = .ok values) :
    values.length = p.tuples.length := by
  rw [rowNumber] at h
  cases hrefuse : refuseArguments "row_number" p with
  | error e =>
    rw [hrefuse] at h
    cases h
  | ok u =>
    rw [hrefuse] at h
    cases h
    simp

theorem length_ranks (keys : List (List Value)) : (ranks keys).length = keys.length := by
  have hfrom : ∀ (keys : List (List Value)) position current previous,
      (ranksFrom position current previous keys).length = keys.length := by
    intro keys
    induction keys with
    | nil => exact fun _ _ _ => rfl
    | cons key keys ih => exact fun position _ _ => congrArg (· + 1) (ih (position + 1) _ key)
  cases keys with
  | nil => rfl
  | cons key keys => exact congrArg (· + 1) (hfrom keys 2 1 key)

theorem length_rank {p : SortedPartition} {values : List Value} (h : rank p = .ok values) :
    values.length = p.keys.length := by
  rw [rank] at h
  cases hrefuse : refuseArguments "rank" p with
  | error e =>
    rw [hrefuse] at h
    cases h
  | ok u =>
    rw [hrefuse] at h
    change (if p.order.isEmpty = true then _ else _) = _ at h
    split at h
    · cases h
    · cases h
      rw [List.length_map, length_ranks]

end Function

namespace Registry

/-- A function that is found was registered last, or was there before. -/
theorem find?_register {r : Registry} {name name' : String} {f g : Function}
    (h : (r.register name f).find? name' = some g) : g = f ∨ r.find? name' = some g := by
  rw [find?, register] at h
  by_cases hname : Text.lowercase name' = Text.lowercase name
  · rw [hname, Labelled.get?_put_self] at h
    exact .inl (Option.some.inj h).symm
  · rw [Labelled.get?_put_ne _ _ hname] at h
    exact .inr h

theorem mem_of_find?_foldl {entries : List (String × Function)} {r : Registry} {name : String}
    {f : Function} (h : (entries.foldl (fun r e => r.register e.1 e.2) r).find? name = some f) :
    f ∈ entries.map Prod.snd ∨ r.find? name = some f := by
  induction entries generalizing r with
  | nil => exact .inr h
  | cons entry entries ih =>
    rw [List.map_cons, List.mem_cons, or_assoc]
    rcases ih h with hmem | hfind
    · exact .inr (.inl hmem)
    · exact (find?_register hfind).imp_right .inr

/-- The functions of the library, by what they look at. -/
theorem builtin_cases {name : String} {f : Function} (h : builtin.find? name = some f) :
    f ∈ [.scalar Function.round, .scalar Function.concat, .scalar Function.split,
      .aggregate Function.count, .aggregate Function.sum, .aggregate Function.avg,
      .aggregate Function.max, .aggregate Function.min, .window Function.rowNumber,
      .window Function.rank] :=
  (mem_of_find?_foldl h).resolve_right nofun

/-- The functions of the library are regular. -/
theorem regular_builtin : builtin.Regular where
  scalar {name f values e} hfind he := by
    have hmem := builtin_cases hfind
    simp only [List.mem_cons, List.not_mem_nil, or_false, reduceCtorEq, Function.scalar.injEq] at hmem
    rcases hmem with rfl | rfl | rfl
    · exact Function.noCount_round values e name he
    · exact Function.noCount_concat values e name he
    · exact Function.noCount_split values e name he
  aggregate {name f tuples empty q e} hfind he := by
    have hmem := builtin_cases hfind
    simp only [List.mem_cons, List.not_mem_nil, or_false, false_or, reduceCtorEq,
      Function.aggregate.injEq] at hmem
    rcases hmem with rfl | rfl | rfl | rfl | rfl
    · exact Function.noCount_count tuples empty q e name he
    · exact Function.noCount_sum tuples empty q e name he
    · exact Function.noCount_avg tuples empty q e name he
    · exact Function.noCount_extreme "max" .gt tuples empty q e name he
    · exact Function.noCount_extreme "min" .lt tuples empty q e name he
  window {name f p e} hfind he := by
    have hmem := builtin_cases hfind
    simp only [List.mem_cons, List.not_mem_nil, or_false, false_or, reduceCtorEq,
      Function.window.injEq] at hmem
    rcases hmem with rfl | rfl
    · exact Function.noCount_rowNumber p e name he
    · exact Function.noCount_rank p e name he
  results {name f p values} hfind hkeys hvalues := by
    have hmem := builtin_cases hfind
    simp only [List.mem_cons, List.not_mem_nil, or_false, false_or, reduceCtorEq,
      Function.window.injEq] at hmem
    rcases hmem with rfl | rfl
    · exact Function.length_rowNumber hvalues
    · exact (Function.length_rank hvalues).trans hkeys

end Registry

/-! ### Steps -/

namespace Step

variable {α β : Type}

/-- The step gives a value and leaves what is wanted along with it, or fails with an error that is not
internal. -/
inductive Safe (s : Step α) (c : Context) (Q : α → Context → Prop) : Prop
  | ok {a : α} {d : Context} : s c = .ok a d → Q a d → Safe s c Q
  | error {e : ExecutionError} {d : Context} : s c = .error e d → e.isInternal = false → Safe s c Q

/-- The step is safe, whatever the context is. -/
def AlwaysSafe (s : Step α) : Prop := ∀ c, Safe s c fun _ _ => True

namespace Safe

variable {s : Step α} {c : Context} {Q : α → Context → Prop}

theorem pure {a : α} (h : Q a c) : Safe (pure a) c Q := .ok rfl h

theorem throw {e : ExecutionError} (h : e.isInternal = false) : Safe (throw e : Step α) c Q :=
  .error rfl h

theorem lift {r : Except ExecutionError α} (h : ∀ e, r = .error e → e.isInternal = false)
    (hQ : ∀ a, r = .ok a → Q a c) : Safe (lift r) c Q := by
  cases r with
  | ok a => exact .pure (hQ a rfl)
  | error e => exact .throw (h e rfl)

theorem modify {Q : PUnit → Context → Prop} {f : Context → Context} (h : Q ⟨⟩ (f c)) :
    Safe (modify f) c Q := .ok rfl h

theorem set {Q : PUnit → Context → Prop} {d : Context} (h : Q ⟨⟩ d) : Safe (set d) c Q := .ok rfl h

theorem get_bind {f : Context → Step α} (h : Safe (f c) c Q) : Safe (get >>= f) c Q := by
  cases h with
  | ok h hq => exact .ok h hq
  | error h he => exact .error h he

theorem bind {f : α → Step β} {R : β → Context → Prop} (h : Safe s c Q)
    (hf : ∀ a d, Q a d → Safe (f a) d R) : Safe (s >>= f) c R := by
  cases h with
  | @ok a d h hq =>
    cases hf a d hq with
    | ok h' hr => exact .ok ((bind_of_ok h).trans h') hr
    | error h' he => exact .error ((bind_of_ok h).trans h') he
  | error h he => exact .error (bind_of_error h) he

theorem mono {R : α → Context → Prop} (h : Safe s c Q) (hQ : ∀ a d, Q a d → R a d) : Safe s c R := by
  cases h with
  | ok h hq => exact .ok h (hQ _ _ hq)
  | error h he => exact .error h he

/-- What is known of the values that the step gives. -/
theorem of_eq_ok {R : α → Context → Prop} (h : Safe s c Q)
    (hR : ∀ a d, s c = .ok a d → Q a d → R a d) : Safe s c R := by
  cases h with
  | ok h hq => exact .ok h (hR _ _ h hq)
  | error h he => exact .error h he

theorem discard {Q : Context → Prop} (h : Safe s c fun _ => Q) : Safe (discard s) c fun _ => Q :=
  h.bind fun _ _ hd => .pure hd

theorem runIn_error {e : ExecutionError} (h : Safe s c Q) (he : s.runIn c = .error e) :
    e.isInternal = false := by
  obtain ⟨d, hd⟩ := runIn_eq_error.mp he
  cases h with
  | ok h _ => cases h.symm.trans hd
  | error h hi =>
    cases h.symm.trans hd
    exact hi

theorem of_ok {a : α} {d : Context} (h : Safe s c Q) (ha : s c = .ok a d) : Q a d := by
  cases h with
  | ok h hq =>
    cases h.symm.trans ha
    exact hq
  | error h _ => cases h.symm.trans ha

theorem of_runIn {a : α} (h : Safe s c Q) (ha : s.runIn c = .ok a) : ∃ d, Q a d := by
  obtain ⟨d, hd⟩ := runIn_eq_ok.mp ha
  exact ⟨d, h.of_ok hd⟩

/-- What every action of a loop keeps is kept by the loop. There is a value for every item. -/
theorem mapM {f : β → Step α} {I : Context → Prop} {l : List β}
    (h : ∀ b ∈ l, ∀ d, I d → Safe (f b) d fun _ => I) (hc : I c) :
    Safe (l.mapM f) c fun as d => as.length = l.length ∧ I d := by
  induction l generalizing c with
  | nil => exact .pure ⟨rfl, hc⟩
  | cons b l ih =>
    rw [List.mapM_cons]
    refine (h b List.mem_cons_self c hc).bind fun a d hd => ?_
    refine (ih (fun b' hb' => h b' (List.mem_cons_of_mem b hb')) hd).bind fun as d' hd' => .pure ?_
    exact ⟨congrArg (· + 1) hd'.1, hd'.2⟩

/-- What holds of every row before it is looked at. The rows may become fewer meanwhile. -/
theorem rows {action : Nat → Step α} {J : Nat → Context → Prop}
    (h : ∀ i d, J i d → i < d.size → Safe (action i) d fun _ => J (i + 1)) (hc : J 0 c) :
    Safe (Step.rows action) c fun as d =>
      J as.size d ∧ as.size ≤ c.size ∧ (as.size < c.size → d.size ≤ as.size) := by
  have hafter : ∀ (n : Nat) (done : Array α) (d : Context), J done.size d →
      Safe (rowsAfter action done n) d fun as d => J as.size d ∧ as.size ≤ done.size + n ∧
        (as.size < done.size + n → d.size ≤ as.size) := by
    intro n
    induction n with
    | zero => exact fun done d hd => .pure ⟨hd, Nat.le_refl _, fun hlt => absurd hlt (Nat.lt_irrefl _)⟩
    | succ n ih =>
      intro done d hd
      rw [rowsAfter]
      refine .get_bind ?_
      split
      · refine (h done.size d hd ‹_›).bind fun a d' hd' => ?_
        have hnext := ih (done.push a) d' (by rwa [Array.size_push])
        rw [Array.size_push, Nat.succ_add_eq_add_succ] at hnext
        exact hnext
      · exact .pure ⟨hd, Nat.le_add_right .., fun _ => Nat.le_of_not_lt ‹_›⟩
  rw [Step.rows]
  refine .get_bind ?_
  have hall := hafter c.size #[] c hc
  rwa [Array.size_empty, Nat.zero_add] at hall

end Safe

namespace AlwaysSafe

variable {s : Step α}

theorem safe {Q : α → Context → Prop} {c : Context} (h : AlwaysSafe s)
    (hQ : ∀ a d, s c = .ok a d → Q a d) : Safe s c Q :=
  (h c).of_eq_ok fun a d hd _ => hQ a d hd

theorem pure (a : α) : AlwaysSafe (pure a : Step α) := fun _ => .pure trivial

theorem throw {e : ExecutionError} (h : e.isInternal = false) : AlwaysSafe (throw e : Step α) :=
  fun _ => .throw h

theorem throw_bind {e : ExecutionError} (h : e.isInternal = false) (f : β → Step α) :
    AlwaysSafe (MonadExcept.throw e >>= f) := fun _ => .error rfl h

theorem lift {r : Except ExecutionError α} (h : ∀ e, r = .error e → e.isInternal = false) :
    AlwaysSafe (lift r) := fun _ => .lift h fun _ _ => trivial

theorem modify (f : Context → Context) : AlwaysSafe (modify f) := fun _ => .modify trivial

theorem set (d : Context) : AlwaysSafe (set d) := fun _ => .set trivial

theorem get_bind {f : Context → Step α} (h : ∀ c, AlwaysSafe (f c)) : AlwaysSafe (get >>= f) :=
  fun c => .get_bind (h c c)

theorem bind {f : α → Step β} (h : AlwaysSafe s) (hf : ∀ a, AlwaysSafe (f a)) :
    AlwaysSafe (s >>= f) := fun c => (h c).bind fun a d _ => hf a d

theorem mapM {f : β → Step α} {l : List β} (h : ∀ b ∈ l, AlwaysSafe (f b)) :
    AlwaysSafe (l.mapM f) := fun _ =>
  (Safe.mapM (I := fun _ => True) (fun b hb d _ => h b hb d) trivial).mono fun _ _ _ => trivial

theorem rows {action : Nat → Step α} (h : ∀ i, AlwaysSafe (action i)) : AlwaysSafe (rows action) :=
  fun _ => (Safe.rows (J := fun _ _ => True) (fun i d _ _ => h i d) trivial).mono fun _ _ _ => trivial

end AlwaysSafe

/-- A loop in which an action fails. -/
theorem exists_of_mapM_eq_error {ε : Type} {l : List β} {f : β → Except ε α} {e : ε}
    (h : l.mapM f = .error e) : ∃ b ∈ l, f b = .error e := by
  induction l with
  | nil => cases h
  | cons b l ih =>
    rw [List.mapM_cons] at h
    cases hb : f b with
    | error e' =>
      rw [hb] at h
      cases h
      exact ⟨b, List.mem_cons_self, hb⟩
    | ok a =>
      rw [hb] at h
      cases hl : l.mapM f with
      | error e' =>
        rw [hl] at h
        cases h
        obtain ⟨b', hb', he⟩ := ih hl
        exact ⟨b', List.mem_cons_of_mem b hb', he⟩
      | ok as =>
        rw [hl] at h
        cases h

end Step

/-! ### Expressions without windows -/

/-- Steps that are always safe. -/
def StepRelation.alwaysSafe : StepRelation where
  rel s _ := Step.AlwaysSafe s
  raises e := e.isInternal = false
  raises_of_isInternal h := h
  pure := .pure
  throw := .throw
  bind := .bind

theorem Expr.WindowFree.body {e : Expr} (h : e.WindowFree) : e.body.WindowFree := by
  induction e using Expr.operands_induction with
  | step e ih =>
  cases e with
  | paren e =>
    have hmem : e ∈ (Expr.paren e).operands := by simp [Expr.operands]
    exact ih e hmem (h.operand hmem)
  | _ => exact h

namespace Step

variable {engine : Engine}

theorem isInternal_resolve {c : Context} {name : String} {e : ExecutionError}
    (h : c.resolve name = .error e) : e.isInternal = false := by
  rw [Context.resolve] at h
  split at h
  · cases h
  · split at h
    · cases h
      rfl
    · cases h
      split <;> rfl

theorem alwaysSafe_readField (name : String) (row : Nat) (b : Bool) :
    AlwaysSafe (readField name row b) := by
  intro c
  have happly := readField_apply name row b c
  cases hr : c.resolve name with
  | error e =>
    rw [hr] at happly
    exact .error happly (isInternal_resolve hr)
  | ok table =>
    rw [hr] at happly
    exact .ok happly trivial

theorem alwaysSafe_readQualified (table name : String) (row : Nat) (b : Bool) :
    AlwaysSafe (readQualified table name row b) := by
  intro c
  have happly := readQualified_apply table name row b c
  cases hv : c.frame.view? table with
  | none =>
    rw [hv] at happly
    exact .error happly (by split <;> rfl)
  | some v =>
    rw [hv] at happly
    dsimp only at happly
    split at happly
    · exact .ok happly trivial
    · exact .error happly rfl

theorem alwaysSafe_groupOf (row : Nat) : AlwaysSafe (groupOf row) := by
  intro c
  cases hg : (c.frame.rows[row]?).bind (·.group) with
  | some g => exact .ok (groupOf_of_group hg) trivial
  | none =>
    cases hsaw : c.sawPlainColumn with
    | true => exact .error (groupOf_of_sawPlainColumn hg hsaw) rfl
    | false => exact .ok (groupOf_of_none hg hsaw) trivial

/-- An aggregate fails because its arguments or its function do. -/
theorem isInternal_aggregateOver (hr : engine.functions.Regular) {name : String}
    {f : Tuples → Bool → Option Quantifier → Except FunctionError Value}
    (hf : engine.functions.find? name = some (.aggregate f)) {arguments : Nat → Step (List Value)}
    (harguments : ∀ i, AlwaysSafe (arguments i)) {q : Option Quantifier} {group : Frame}
    {e : ExecutionError} (he : aggregateOver name f arguments q group = .error e) :
    e.isInternal = false := by
  rw [aggregateOver] at he
  cases hrows : (rows arguments).runIn (.ofFrame group) with
  | error e' =>
    rw [hrows] at he
    cases he
    exact (AlwaysSafe.rows harguments (.ofFrame group)).runIn_error hrows
  | ok tuples =>
    rw [hrows] at he
    change (f tuples.toList (group.size == 0) q).mapError (ExecutionError.function name) = _ at he
    cases hvalue : f tuples.toList (group.size == 0) q with
    | ok v =>
      rw [hvalue] at he
      cases he
    | error e' =>
      rw [hvalue] at he
      cases he
      exact hr.aggregate hf hvalue

theorem Safe.value {v : Evaluator} {row : Nat} {b : Bool} {c : Context}
    (h : Safe (v.compute row b) c fun _ _ => True) :
    Safe (v.value engine row b) c fun _ _ => True := by
  rw [Evaluator.value]
  split
  · exact h
  · refine .get_bind ?_
    split
    · exact .pure trivial
    · exact h.bind fun x d _ => .bind (Q := fun _ _ => True) (.modify trivial) fun _ _ _ => .pure trivial

/-- The evaluation of expressions without windows. -/
def safeEvaluation (hr : engine.functions.Regular) : Simulation engine engine where
  Index := Nat × Bool
  row := Prod.fst
  otherRow := Prod.fst
  inAggregate := Prod.snd
  relation _ := .alwaysSafe
  admits := Expr.WindowFree
  operand h hp := h.operand hp
  readField x name := alwaysSafe_readField name x.1 x.2
  readQualified x table name := alwaysSafe_readQualified table name x.1 x.2
  readWindow _ _ _ _ _
    | .intro h _ => absurd rfl (h _ _ _ _)
  call x _ _ _ _ _ _ _ hf :=
    StepRelation.alwaysSafe.call rfl (fun _ _ _ hfind he => hr.scalar hfind he) (fun _ _ => hf x)
      fun _ hfind => (alwaysSafe_groupOf x.1).bind fun _ =>
        .lift fun _ he => isInternal_aggregateOver hr hfind (fun i => hf (i, true)) he
  value _ _ _ h := fun c => (h c).value

variable (hr : engine.functions.Regular)
include hr

theorem alwaysSafe_evaluate {e : Expr} (he : e.WindowFree) (row : Nat) (b : Bool) :
    AlwaysSafe ((e.evaluator engine).value engine row b) :=
  (safeEvaluation hr).evaluate he (row, b)

theorem alwaysSafe_values {es : List Expr} (hes : ∀ e ∈ es, e.WindowFree) (row : Nat) (b : Bool) :
    AlwaysSafe (Evaluator.values engine (Expr.evaluators engine es) row b) :=
  (safeEvaluation hr).values hes (row, b)

theorem alwaysSafe_holds {e : Expr} (he : e.WindowFree) (row : Nat) :
    AlwaysSafe ((e.evaluator engine).holds engine row) :=
  (safeEvaluation hr).holds he (x := (row, false)) rfl

/-! ### Operations -/

theorem alwaysSafe_buckets {keys : List Expr} (hkeys : ∀ k ∈ keys, k.WindowFree) :
    AlwaysSafe (buckets engine keys) := by
  rw [buckets]
  split
  · exact .throw rfl
  · exact (AlwaysSafe.rows fun i => alwaysSafe_values hr hkeys i false).bind fun _ => .pure _

theorem alwaysSafe_groupBy {keys : List Expr} (hkeys : ∀ k ∈ keys, k.WindowFree) :
    AlwaysSafe (groupBy engine keys) := by
  rw [groupBy]
  refine (alwaysSafe_buckets hr hkeys).bind fun buckets => ?_
  refine AlwaysSafe.bind (.get_bind fun c => .pure _) fun groups => .get_bind fun c => ?_
  refine (AlwaysSafe.lift fun e he => ?_).bind fun columns => .bind (.set _) fun _ => .pure _
  -- a key fails only if it is a field that cannot be found
  obtain ⟨k, -, hk⟩ := exists_of_mapM_eq_error he
  rw [Context.keyColumn] at hk
  split at hk
  · cases hresolve : c.resolve _ with
    | ok table =>
      rw [hresolve] at hk
      cases hk
    | error e' =>
      rw [hresolve] at hk
      cases hk
      exact isInternal_resolve hresolve
  · cases hk
  · cases hk

theorem alwaysSafe_mergePairs {key : Expr} (hkey : key.WindowFree) (right : View) (field : String) :
    AlwaysSafe (mergePairs engine key right field) := by
  rw [mergePairs]
  refine .get_bind fun c => AlwaysSafe.bind (.mapM fun i _ => ?_) fun left => .pure _
  exact (alwaysSafe_evaluate hr hkey i false).bind fun x => .pure _

theorem alwaysSafe_tryPairs {on : Expr} (hon : on.WindowFree) (candidates : List RowPair)
    (table : String) (right : View) : AlwaysSafe (tryPairs engine candidates table right on) := by
  rw [tryPairs]
  refine .get_bind fun saved => .bind (.set _) fun _ => ?_
  refine AlwaysSafe.bind (.mapM fun q _ => ?_) fun tried => .bind (.modify _) fun _ => .pure _
  obtain ⟨p, k⟩ := q
  dsimp only
  split
  · exact (alwaysSafe_holds hr hon _).bind fun truth => .pure _
  · exact .pure _

theorem alwaysSafe_leftJoin {on : Expr} (hon : on.WindowFree) (aliases : List String) (table : String)
    (right : View) : AlwaysSafe (leftJoin engine aliases table right on) := by
  rw [leftJoin]
  refine .get_bind fun c => ?_
  have hlast : ∀ pairs : List RowPair, AlwaysSafe (do
      modify fun d =>
        let frame := (d.frame.take (pairs.map Prod.fst)).push table (right.paired pairs)
        { (d.registerFields table right.fields).replaceFrame frame with sawPlainColumn := false }
      return aliases ++ [table]) := fun pairs => .bind (.modify _) fun _ => .pure _
  cases hview : c.frame.view? table with
  | some v => exact .throw_bind rfl _
  | none =>
    simp only [Option.isSome_none, Bool.false_eq_true, if_false]
    split
    · exact hlast _
    · cases hfound : c.equalityKeys? on aliases table right with
      | none => exact (alwaysSafe_tryPairs hr hon _ table right).bind hlast
      | some found =>
        -- the keys are the sides of the condition
        obtain ⟨other, -, -, hbody, -⟩ := Context.equalityKeys?_eq_some hfound
        have hkey : found.1.WindowFree := by
          obtain hbody | hbody := hbody
          · exact (hbody ▸ hon.body).operand (by simp [Expr.operands])
          · exact (hbody ▸ hon.body).operand (by simp [Expr.operands])
        refine (alwaysSafe_mergePairs hr hkey right found.2).bind fun candidates => ?_
        exact (alwaysSafe_tryPairs hr hon candidates table right).bind hlast

end Step

end TableQuery
