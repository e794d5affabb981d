/-
What lists and simple cases stand for.

`x in (y, z)` asks whether `x = y or x = z`, and a simple case compares its base with one condition
after the other. Each of them has code of its own for Null, and gives the value of what it stands
for: the list looks for an equal item and notices Null on the way, the operators pass Null through
three-valued logic.

* `Value.found` — the answer to the question whether one of several values is equal;
* `Step.Settles` — a step gives a value, whatever was remembered truly before;
* `Step.settles_someEquality`, `Step.settles_membership` — both ways lead to that answer;
* `Context.sameValue_expansions` — so each has the value of what it stands for.
-/
import TableQuery.Proofs.EqualityKeys
import TableQuery.Proofs.Independence

namespace TableQuery

/-! ### Answers with Null -/

namespace Value

/-- A truth as a value. -/
def ofTruth : Option Bool → Value
  | none => null
  | some b => boolean b

@[simp] theorem truth?_ofTruth (t : Option Bool) : (ofTruth t).truth? = t := by cases t <;> rfl

/-- Whether one of the values equals `v`. It is unknown when none does but there was Null. -/
def found (v : Value) (unknown : Bool) (ws : List Value) : Option Bool :=
  if ws.any v.equal then some true
  else if unknown || ws.any isNull then none
  else some false

theorem equal_of_isNull {v w : Value} (h : v.isNull = true ∨ w.isNull = true) : v.equal w = false := by
  cases v <;> cases w <;> first | rfl | simp [isNull] at h

theorem found_of_isNull {v : Value} (h : v.isNull = true) (ws : List Value) :
    v.found true ws = none := by
  have hany : ws.any v.equal = false := List.any_eq_false.mpr fun w _ => by simp [equal_of_isNull, h]
  rw [found, hany]
  rfl

theorem found_eq_true {v : Value} {unknown : Bool} {ws : List Value} :
    v.found unknown ws = some true ↔ ∃ w ∈ ws, v.equal w = true := by
  rw [found, ← List.any_eq_true]
  split
  · next h => simp [h]
  · next h =>
    split <;> simp [h]

theorem found_cons (v w : Value) (ws : List Value) (unknown : Bool) :
    v.found unknown (w :: ws) =
      if w.isNull then v.found true ws else if v.equal w then some true else v.found unknown ws := by
  by_cases h : w.isNull = true
  · simp [found, h, equal_of_isNull (v := v) (.inr h)]
  · by_cases hequal : v.equal w = true <;> simp [found, h, hequal]

/-- A comparison asks for the one value in a list of the other alone. -/
theorem apply_eq (v w : Value) :
    BinaryOperator.apply .eq v w = .ok (ofTruth (v.found v.isNull [w])) := by
  have happly : BinaryOperator.apply .eq v w =
      if v.isNull || w.isNull then .ok .null else .ok (.boolean (v.equal w)) := rfl
  rw [happly, found, List.any_cons, List.any_nil, List.any_cons, List.any_nil, Bool.or_false,
    Bool.or_false]
  by_cases h : v.isNull = true ∨ w.isNull = true
  · rw [equal_of_isNull h]
    simp [h, ofTruth]
  · cases v.equal w <;> simp [h, ofTruth]

/-- One more value in the list is one more comparison. -/
theorem either_found (v w : Value) (ws : List Value) :
    BinaryOperator.either (ofTruth (v.found v.isNull ws)) (ofTruth (v.found v.isNull [w])) =
      ofTruth (v.found v.isNull (ws ++ [w])) := by
  rw [BinaryOperator.either, truth?_ofTruth, truth?_ofTruth]
  simp only [found, List.any_append, List.any_cons, List.any_nil, Bool.or_false]
  cases ws.any v.equal <;> cases v.equal w <;> cases v.isNull <;> cases ws.any isNull <;>
    cases w.isNull <;> rfl

end Value

/-! ### Equalities of fields -/

/-- Branches with fields for their results, and with conditions made from fields. -/
def Branches.ofFields (condition : String → Expr) (otherwise : Option String) :
    List (String × String) → Branches
  | [] => match otherwise with
    | none => .finish
    | some r => .otherwise (.field r)
  | (y, r) :: pairs => .branch (condition y) (.field r) (ofFields condition otherwise pairs)

/-- What the field of the given name reads in a row. -/
def Context.fieldValue (c : Context) (i : Nat) (name : String) : Value :=
  match c.resolve name with
  | .ok table => c.cell ⟨table, name⟩ i
  | .error _ => .null

namespace Expr

/-- The equality of two fields. -/
def equality (x y : String) : Expr := .binary .eq (.field x) (.field y)

/-- The equality of `x` with `y` or with one of more fields, from left to right. -/
def someEquality (x y : String) (ys : List String) : Expr :=
  ys.foldl (fun e z => .binary .or e (equality x z)) (equality x y)

theorem someEquality_append (x y : String) (ys : List String) (z : String) :
    someEquality x y (ys ++ [z]) = .binary .or (someEquality x y ys) (equality x z) :=
  List.foldl_append

/-- The equality with one of some fields, or that with any single field. -/
inductive SomeEquality (x y : String) (ys : List String) : Expr → Prop
  | equality {z : String} (hz : ' ' ∉ z.toList) : SomeEquality x y ys (equality x z)
  | some {zs : List String} (hzs : zs <+: ys) : SomeEquality x y ys (someEquality x y zs)

section Labels

variable {x y z : String} {ys : List String}

theorem count_label_equality (hx : ' ' ∉ x.toList) (hz : ' ' ∉ z.toList) :
    (equality x z).label.toList.count ' ' = 2 := by
  simp [equality, label, BinaryOperator.symbol, List.count_eq_zero.mpr hx, List.count_eq_zero.mpr hz]

/-- As many fields as there are, as many blanks are in the label. -/
theorem count_label_someEquality (hx : ' ' ∉ x.toList) (hys : ∀ z ∈ y :: ys, ' ' ∉ z.toList) :
    (someEquality x y ys).label.toList.count ' ' = 2 + 4 * ys.length := by
  induction ys using List.reverseRecOn with
  | nil => exact count_label_equality hx (hys y List.mem_cons_self)
  | append_singleton ys z ih =>
    have hz := count_label_equality hx (hys z (by simp))
    have ih := ih fun w hw => hys w (by
      rw [← List.cons_append]
      exact List.mem_append_left _ hw)
    rw [someEquality_append, label]
    simp [BinaryOperator.symbol, ih, hz]
    omega

/-- The labels tell them apart, for there are no blanks in the names. -/
theorem labelsApart_someEquality (hx : ' ' ∉ x.toList) (hys : ∀ z ∈ y :: ys, ' ' ∉ z.toList) :
    LabelsApart (SomeEquality x y ys) := by
  have hchain : ∀ {zs}, zs <+: ys →
      (someEquality x y zs).label.toList.count ' ' = 2 + 4 * zs.length := fun hzs =>
    count_label_someEquality hx fun w hw => hys w ((List.cons_subset_cons y hzs.subset) hw)
  have hequality : ∀ {z w : String}, (equality x z).label = (equality x w).label →
      equality x z = equality x w := by
    intro z w h
    have h := congrArg String.toList h
    simp only [equality, label, String.toList_append, List.append_cancel_left_eq] at h
    rw [String.toList_inj.mp h]
  -- a single equality has the fewest blanks
  have hmixed : ∀ {z zs}, ' ' ∉ z.toList → zs <+: ys →
      (equality x z).label = (someEquality x y zs).label → equality x z = someEquality x y zs := by
    intro z zs hz hzs h
    have hcount := congrArg (fun label : String => label.toList.count ' ') h
    rw [count_label_equality hx hz, hchain hzs] at hcount
    obtain rfl : zs = [] := List.length_eq_zero_iff.mp (by omega)
    exact hequality h
  rintro _ _ (hz | hzs) (hw | hws) - - h
  case equality.equality => exact hequality h
  case equality.some => exact hmixed hz hws h
  case some.equality => exact (hmixed hw hzs h.symm).symm
  case some.some zs ws =>
    have hcount := congrArg (fun label : String => label.toList.count ' ') h
    rw [hchain hzs, hchain hws] at hcount
    have hlength : zs.length = ws.length := by omega
    rw [(List.prefix_of_prefix_length_le hzs hws hlength.le).eq_of_length hlength]

end Labels

end Expr

/-! ### Steps that give one value -/

namespace Step

open Context

variable {engine : Engine} {A : Expr → Prop} {b : Bool} {i : Nat} {c : Context} {α β : Type}

/-- From every context that is sound the step gives the value, and leaves one that is sound. -/
def Settles (engine : Engine) (A : Expr → Prop) (b : Bool) (i : Nat) (c : Context) (s : Step α)
    (a : α) : Prop :=
  ∀ d, Sound engine A b i c d → ∃ d', s d = .ok a d' ∧ Sound engine A b i c d'

namespace Settles

theorem pure (a : α) : Settles engine A b i c (pure a) a := fun d hd => ⟨d, rfl, hd⟩

theorem bind {s : Step α} {f : α → Step β} {a : α} {r : β} (h : Settles engine A b i c s a)
    (hf : Settles engine A b i c (f a) r) : Settles engine A b i c (s >>= f) r := by
  intro d hd
  obtain ⟨d', hs, hd'⟩ := h d hd
  rw [bind_of_ok hs]
  exact hf d' hd'

theorem runIn {s : Step α} {a : α} (h : Settles engine A b i c s a) : s.runIn c = .ok a := by
  obtain ⟨d, hs, -⟩ := h c .initial
  exact runIn_eq_ok.mpr ⟨d, hs⟩

theorem repeats {s : Step α} {a : α} (h : Settles engine A b i c s a) :
    Repeats engine A b i c s := by
  intro d hd
  obtain ⟨d', hs, hd'⟩ := h d hd
  rw [h.runIn]
  exact .ok hs hd'

end Settles

theorem Repeats.settles {s : Step α} {a : α} (h : Repeats engine A b i c s)
    (hs : s.runIn c = .ok a) : Settles engine A b i c s a := by
  intro d hd
  have hanswers := h d hd
  rw [hs] at hanswers
  exact hanswers.eq_ok

theorem settles_field {name table : String} (h : c.resolve name = .ok table) :
    Settles engine A b i c (evaluate engine (.field name) i b) (c.fieldValue i name) := by
  rw [evaluate, Expr.value_of_body_field engine rfl]
  refine (repeats_readField name).settles ?_
  rw [Step.runIn, EStateM.run, readField_apply, fieldValue, h]
  rfl

/-- An expression has the value that is computed, if nothing is remembered at the start. -/
theorem settles_evaluate (hA : Expr.LabelsApart A) {e : Expr} (he : A e)
    (hremembered : ∀ label, c.remembered? engine i label = none) {v : Value}
    (h : Settles engine A b i c ((e.evaluator engine).compute i b) v) :
    Settles engine A b i c (evaluate engine e i b) v :=
  (repeats_value hA he h.repeats).settles
    ((Evaluator.runIn_value_of_forgotten hremembered b).trans h.runIn)

variable {x y : String} {ys : List String} {value : String → Value}

theorem settles_compute_equality {z : String}
    (hx : Settles engine A b i c (evaluate engine (.field x) i b) (value x))
    (hz : Settles engine A b i c (evaluate engine (.field z) i b) (value z)) :
    Settles engine A b i c (((Expr.equality x z).evaluator engine).compute i b)
      (.ofTruth ((value x).found (value x).isNull [value z])) := by
  rw [Expr.equality, Expr.evaluator]
  refine hx.bind (hz.bind ?_)
  rw [Value.apply_eq]
  exact .pure _

/-- A chain of equalities gives the answer for all of them. -/
theorem settles_someEquality (hA : Expr.LabelsApart (Expr.SomeEquality x y ys))
    (hremembered : ∀ label, c.remembered? engine i label = none)
    (hblank : ∀ z ∈ ys, ' ' ∉ z.toList)
    (hvalue : ∀ n ∈ x :: y :: ys,
      Settles engine (Expr.SomeEquality x y ys) b i c (evaluate engine (.field n) i b) (value n))
    {zs : List String} (hzs : zs <+: ys) :
    Settles engine (Expr.SomeEquality x y ys) b i c
      (evaluate engine (Expr.someEquality x y zs) i b)
      (.ofTruth ((value x).found (value x).isNull ((y :: zs).map value))) := by
  have hx := hvalue x (by simp)
  induction zs using List.reverseRecOn with
  | nil =>
    exact settles_evaluate hA (.some hzs) hremembered
      (settles_compute_equality hx (hvalue y (by simp)))
  | append_singleton zs z ih =>
    have hz : z ∈ ys := hzs.subset (by simp)
    have hlast := settles_evaluate hA (.equality (hblank z hz)) hremembered
      (settles_compute_equality hx (hvalue z (by simp [hz])))
    refine settles_evaluate hA (.some hzs) hremembered ?_
    rw [Expr.someEquality_append, Expr.evaluator]
    refine (ih ((List.prefix_append zs [z]).trans hzs)).bind (hlast.bind ?_)
    rw [BinaryOperator.apply, Value.either_found, ← List.cons_append, List.map_append]
    exact .pure _

/-- A search through a list gives the same answer. -/
theorem settles_membership {zs : List String}
    (hvalue : ∀ z ∈ zs, Settles engine A b i c (evaluate engine (.field z) i b) (value z))
    (v : Value) (negated unknown : Bool) :
    Settles engine A b i c
      (Evaluator.membership engine v negated i b (Expr.evaluators engine (zs.map .field)) unknown)
      (.ofTruth ((v.found unknown (zs.map value)).map (· != negated))) := by
  induction zs generalizing unknown with
  | nil =>
    rw [List.map_nil, Expr.evaluators, Evaluator.membership]
    cases unknown <;> cases negated <;> exact .pure _
  | cons z zs ih =>
    have ih := ih fun z hz => hvalue z (List.mem_cons_of_mem _ hz)
    rw [List.map_cons, Expr.evaluators, Evaluator.membership]
    refine (hvalue z List.mem_cons_self).bind ?_
    rw [List.map_cons, Value.found_cons]
    split
    · exact ih true
    · split
      · cases negated <;> exact .pure _
      · exact ih unknown

/-- A question for a list has that answer or its negation. It is unknown when the operand is Null. -/
theorem settles_compute_isIn {zs : List String}
    (hx : Settles engine A b i c (evaluate engine (.field x) i b) (value x))
    (hvalue : ∀ z ∈ zs, Settles engine A b i c (evaluate engine (.field z) i b) (value z))
    (negated : Bool) :
    Settles engine A b i c
      (((Expr.isIn (.field x) (zs.map .field) negated).evaluator engine).compute i b)
      (.ofTruth (((value x).found (value x).isNull (zs.map value)).map (· != negated))) := by
  rw [Expr.evaluator]
  refine hx.bind ?_
  cases hnull : (value x).isNull with
  | true =>
    rw [Value.found_of_isNull hnull]
    exact .pure _
  | false => exact settles_membership hvalue (value x) negated false

/-- Whether a case compares its base or asks for equalities, the first branch that applies is the same. -/
theorem exists_settles_first (x : String) (value : String → Value)
    {pairs : List (String × String)} {otherwise : Option String}
    (hpairs : ∀ p ∈ pairs,
      Settles engine A b i c (evaluate engine (.field p.1) i b) (value p.1) ∧
      Settles engine A b i c (evaluate engine (Expr.equality x p.1) i b)
        (.ofTruth ((value x).found (value x).isNull [value p.1])) ∧
      Settles engine A b i c (evaluate engine (.field p.2) i b) (value p.2))
    (hotherwise : ∀ r ∈ otherwise,
      Settles engine A b i c (evaluate engine (.field r) i b) (value r)) :
    ∃ u,
      Settles engine A b i c ((Expr.branchEvaluators engine
        (.ofFields .field otherwise pairs)).value engine (some (value x)) i b) u ∧
      Settles engine A b i c ((Expr.branchEvaluators engine
        (.ofFields (Expr.equality x) otherwise pairs)).value engine none i b) u := by
  induction pairs with
  | nil =>
    cases otherwise with
    | none => exact ⟨.null, .pure _, .pure _⟩
    | some r => exact ⟨value r, hotherwise r rfl, hotherwise r rfl⟩
  | cons p pairs ih =>
    obtain ⟨hcondition, hequality, hresult⟩ := hpairs p List.mem_cons_self
    obtain ⟨u, hsimple, hsearched⟩ := ih fun p hp => hpairs p (List.mem_cons_of_mem _ hp)
    refine ⟨if (value x).equal (value p.1) then value p.2 else u, hcondition.bind ?_,
      hequality.bind ?_⟩
    · dsimp only
      split
      · exact hresult
      · exact hsimple
    · -- the equality is true just if the base equals the value; when it is false or Null the other
      -- branches are tried, as they are when the values differ
      by_cases hequal : (value x).equal (value p.1) = true
      · rw [if_pos hequal, Value.found_eq_true.mpr ⟨_, List.mem_cons_self, hequal⟩]
        exact hresult
      · rw [if_neg hequal]
        cases hfound : (value x).found (value x).isNull [value p.1] with
        | none => exact hsearched
        | some t =>
          cases t with
          | false => exact hsearched
          | true =>
            obtain ⟨w, hw, hequal'⟩ := Value.found_eq_true.mp hfound
            exact absurd (List.mem_singleton.mp hw ▸ hequal') hequal

theorem runIn_not (hremembered : ∀ label, c.remembered? engine i label = none) {e : Expr}
    {t : Option Bool} (h : (evaluate engine e i b).runIn c = .ok (.ofTruth t)) :
    (evaluate engine (.unary .not e) i b).runIn c = .ok (.ofTruth (t.map (· != true))) := by
  obtain ⟨d, hd⟩ := runIn_eq_ok.mp h
  rw [evaluate, Evaluator.runIn_value_of_forgotten hremembered, Expr.evaluator]
  refine (runIn_bind_of_ok hd).trans ?_
  rw [runIn_lift, UnaryOperator.apply, Value.truth?_ofTruth]
  rcases t with _ | _ | _ <;> rfl

theorem runIn_paren (hremembered : ∀ label, c.remembered? engine i label = none) (e : Expr) :
    (evaluate engine (.paren e) i b).runIn c = (evaluate engine e i b).runIn c := by
  rw [evaluate, evaluate, Evaluator.runIn_value_of_forgotten hremembered,
    Evaluator.runIn_value_of_forgotten hremembered, Expr.evaluator]

end Step

namespace Context

open Step

/-- Both expressions have a value in the row, and it is the same one. -/
def SameValue (c : Context) (engine : Engine) (i : Nat) (b : Bool) (e e' : Expr) : Prop :=
  ∃ v, (evaluate engine e i b).runIn c = .ok v ∧ (evaluate engine e' i b).runIn c = .ok v

/-- Some view alone declares the field. -/
def HasColumn (c : Context) (name : String) : Prop := ∃ table, c.resolve name = .ok table

section Fields

variable {engine : Engine} {c : Context} {i : Nat} {b : Bool} {x y : String} {ys : List String}

theorem HasColumn.settles {A : Expr → Prop} {name : String} (h : c.HasColumn name) :
    Settles engine A b i c (evaluate engine (.field name) i b) (c.fieldValue i name) :=
  h.elim fun _ h => settles_field h

/-- A question for a list of fields has the answer, or its negation. -/
theorem runIn_isIn (hremembered : ∀ label, c.remembered? engine i label = none)
    (hx : c.HasColumn x) (hys : ∀ z ∈ ys, c.HasColumn z) (negated : Bool) :
    (evaluate engine (.isIn (.field x) (ys.map .field) negated) i b).runIn c =
      .ok (.ofTruth (((c.fieldValue i x).found (c.fieldValue i x).isNull
        (ys.map (c.fieldValue i))).map (· != negated))) := by
  rw [evaluate, Evaluator.runIn_value_of_forgotten hremembered]
  exact (settles_compute_isIn (A := fun _ => False) hx.settles (fun z hz => (hys z hz).settles)
    negated).runIn

/-- The chain of equalities has the same answer. -/
theorem runIn_someEquality (hremembered : ∀ label, c.remembered? engine i label = none)
    (hx : c.HasColumn x) (hys : ∀ z ∈ y :: ys, c.HasColumn z)
    (hblank : ∀ n ∈ x :: y :: ys, ' ' ∉ n.toList) :
    (evaluate engine (Expr.someEquality x y ys) i b).runIn c =
      .ok (.ofTruth ((c.fieldValue i x).found (c.fieldValue i x).isNull
        ((y :: ys).map (c.fieldValue i)))) := by
  obtain ⟨hblankX, hblankYs⟩ := List.forall_mem_cons.mp hblank
  have hvalue : ∀ n ∈ x :: y :: ys, c.HasColumn n := List.forall_mem_cons.mpr ⟨hx, hys⟩
  exact (settles_someEquality (Expr.labelsApart_someEquality hblankX hblankYs) hremembered
    (fun z hz => hblankYs z (List.mem_cons_of_mem _ hz)) (fun n hn => (hvalue n hn).settles)
    (List.prefix_refl ys)).runIn

/-- A simple case has the value of the case that asks for equalities. -/
theorem sameValue_case (hremembered : ∀ label, c.remembered? engine i label = none)
    (hx : c.HasColumn x) {pairs : List (String × String)} {otherwise : Option String}
    (hpairs : ∀ p ∈ pairs, c.HasColumn p.1 ∧ c.HasColumn p.2)
    (hotherwise : ∀ r ∈ otherwise, c.HasColumn r)
    (hblank : ∀ n ∈ x :: pairs.map Prod.fst, ' ' ∉ n.toList) :
    c.SameValue engine i b (.simpleCase (.field x) (.ofFields .field otherwise pairs))
      (.searchedCase (.ofFields (.equality x) otherwise pairs)) := by
  obtain ⟨hblankX, hblankPairs⟩ := List.forall_mem_cons.mp hblank
  -- the single equalities are told apart by their labels, with or without a chain of them
  have hA : Expr.LabelsApart (Expr.SomeEquality x x []) :=
    Expr.labelsApart_someEquality hblankX (List.forall_mem_singleton.mpr hblankX)
  have hequality : ∀ p ∈ pairs, Settles engine (Expr.SomeEquality x x []) b i c
      (evaluate engine (Expr.equality x p.1) i b)
      (.ofTruth ((c.fieldValue i x).found (c.fieldValue i x).isNull [c.fieldValue i p.1])) :=
    fun p hp => settles_evaluate hA (.equality (hblankPairs _ (List.mem_map_of_mem hp))) hremembered
      (settles_compute_equality hx.settles (hpairs p hp).1.settles)
  obtain ⟨u, hsimple, hsearched⟩ := exists_settles_first x (c.fieldValue i)
    (fun p hp => ⟨(hpairs p hp).1.settles, hequality p hp, (hpairs p hp).2.settles⟩)
    fun r hr => (hotherwise r hr).settles
  refine ⟨u, ?_, ?_⟩
  · rw [evaluate, Evaluator.runIn_value_of_forgotten hremembered, Expr.evaluator]
    exact (hx.settles.bind hsimple).runIn
  · rw [evaluate, Evaluator.runIn_value_of_forgotten hremembered, Expr.evaluator]
    exact hsearched.runIn

end Fields

/-- Where nothing is remembered about a row, questions for a list and simple cases have the values of
their expansions, whatever the columns hold. No name of a column has a blank. -/
theorem sameValue_expansions (engine : Engine) {c : Context} {i : Nat} (b : Bool) {x y s : String}
    {pairs : List (String × String)} {otherwise : Option String}
    (hremembered : ∀ label, c.remembered? engine i label = none)
    (hx : c.HasColumn x) (hpairs : ∀ p ∈ (y, s) :: pairs, c.HasColumn p.1 ∧ c.HasColumn p.2)
    (hotherwise : ∀ r ∈ otherwise, c.HasColumn r)
    (hblank : ∀ n ∈ x :: y :: pairs.map Prod.fst, ' ' ∉ n.toList) :
    let items := ((y, s) :: pairs).map fun p => Expr.field p.1
    let chain := Expr.someEquality x y (pairs.map Prod.fst)
    c.SameValue engine i b (.isIn (.field x) items false) chain ∧
    c.SameValue engine i b (.isIn (.field x) items true) (.unary .not chain) ∧
    c.SameValue engine i b (.isIn (.field x) items true) (.unary .not (.paren chain)) ∧
    c.SameValue engine i b (.simpleCase (.field x) (.ofFields .field otherwise ((y, s) :: pairs)))
      (.searchedCase (.ofFields (.equality x) otherwise ((y, s) :: pairs))) := by
  intro items chain
  have hfirsts : ((y, s) :: pairs).map Prod.fst = y :: pairs.map Prod.fst := rfl
  have hitems : (y :: pairs.map Prod.fst).map Expr.field = items := by
    rw [← hfirsts, List.map_map]
    rfl
  have hys : ∀ z ∈ y :: pairs.map Prod.fst, c.HasColumn z := by
    intro z hz
    obtain ⟨p, hp, rfl⟩ := List.mem_map.mp (hfirsts ▸ hz)
    exact (hpairs p hp).1
  have hin := runIn_isIn (b := b) hremembered hx hys
  rw [hitems] at hin
  have hchain : (evaluate engine chain i b).runIn c = _ :=
    runIn_someEquality hremembered hx hys hblank
  refine ⟨⟨_, ?_, hchain⟩, ⟨_, hin true, runIn_not hremembered hchain⟩,
    ⟨_, hin true, runIn_not hremembered ((runIn_paren hremembered chain).trans hchain)⟩,
    sameValue_case hremembered hx hpairs hotherwise hblank⟩
  rw [hin false]
  generalize (c.fieldValue i x).found _ _ = t
  rcases t with _ | _ | _ <;> rfl

/-- A row with Null, a number, a text and a list among what a field is compared with. -/
def mixedRow : Context := Context.after .builtin {} (.addView "t" ⟨["x", "a", "b", "d", "r", "s"],
  #[.ofList [("x", .ofNat 2), ("a", .null), ("b", .string "2"), ("d", .ofNat 2),
    ("r", .list [.null]), ("s", .string "s")]]⟩)

theorem sameValue_expansions_mixedRow :
    let items := ["a", "b", "d"].map Expr.field
    let chain := Expr.someEquality "x" "a" ["b", "d"]
    let pairs := [("a", "r"), ("b", "x"), ("d", "s")]
    mixedRow.SameValue .builtin 0 false (.isIn (.field "x") items false) chain ∧
    mixedRow.SameValue .builtin 0 false (.isIn (.field "x") items true) (.unary .not chain) ∧
    mixedRow.SameValue .builtin 0 false (.isIn (.field "x") items true)
      (.unary .not (.paren chain)) ∧
    mixedRow.SameValue .builtin 0 false
      (.simpleCase (.field "x") (.ofFields .field (some "b") pairs))
      (.searchedCase (.ofFields (.equality "x") (some "b") pairs)) := by
  have hremembered : ∀ label, mixedRow.remembered? .builtin 0 label = none := fun _ => rfl
  have hcolumn : ∀ n ∈ ["x", "a", "b", "d", "r", "s"], mixedRow.HasColumn n := by
    have hresolve : ∀ n ∈ ["x", "a", "b", "d", "r", "s"],
        (mixedRow.resolve n).toOption = some "t" := by decide +kernel
    exact fun n hn => ⟨"t", eq_ok_of_toOption (hresolve n hn)⟩
  have hpairs : ∀ p ∈ [("a", "r"), ("b", "x"), ("d", "s")],
      mixedRow.HasColumn p.1 ∧ mixedRow.HasColumn p.2 := by
    intro p hp
    have hmem : p.1 ∈ ["x", "a", "b", "d", "r", "s"] ∧ p.2 ∈ ["x", "a", "b", "d", "r", "s"] := by
      revert p
      decide
    exact ⟨hcolumn _ hmem.1, hcolumn _ hmem.2⟩
  have hotherwise : ∀ r ∈ some "b", mixedRow.HasColumn r := fun r hr =>
    Option.some.inj hr ▸ hcolumn "b" (by simp)
  have hblank : ∀ n ∈ "x" :: "a" :: [("b", "x"), ("d", "s")].map Prod.fst, ' ' ∉ n.toList := by decide
  exact (sameValue_expansions .builtin false hremembered (hcolumn "x" (by simp)) hpairs hotherwise
    hblank :)

end Context

end TableQuery
