/-
The labels under which values are remembered.

Values are remembered while expressions are evaluated in the rows of a query, under the labels of
these expressions and of what is evaluated for them. A filter forgets all values; windows and sorting
keep them. So after the rows are in order, only the expressions that they were sorted and partitioned
by have left their values behind.

* `Expr.Within` — what is evaluated for an expression;
* `Step.lasting_recalls` — operations remember values under known labels;
* `Step.recalls_arranged` — what is remembered when rows are in order.
-/
import TableQuery.Proofs.WholeGroup

namespace TableQuery

/-- The expression is evaluated in the course of evaluating another. -/
inductive Expr.Within : Expr → Expr → Prop
  | self (e : Expr) : Within e e
  | operand {q p e : Expr} : p ∈ e.operands → Within q p → Within q e

theorem Expr.Within.trans {q p e : Expr} (h : q.Within p) (h' : p.Within e) : q.Within e := by
  induction h' with
  | self => exact h
  | operand hp _ ih => exact .operand hp ih

/-- A list that has the operands of its members has all that is evaluated for them. -/
theorem Expr.Within.mem {q e : Expr} (h : q.Within e) {l : List Expr}
    (hoperands : ∀ e ∈ l, ∀ p ∈ e.operands, p ∈ l) (he : e ∈ l) : q ∈ l := by
  induction h with
  | self => exact he
  | operand hp _ ih => exact ih (hoperands _ he _ hp)

/-- Whatever is evaluated for the expression is remembered under a known label. -/
def Expr.Labels (known : String → Prop) (e : Expr) : Prop :=
  ∀ q : Expr, q.Within e → q.isRemembered = true → known q.label

namespace Context

/-- Values are remembered only under known labels, and there are no keys of groups. -/
structure Recalls (known : String → Prop) (c : Context) : Prop where
  memo : ∀ (i : Nat) label, (c.memo[i]?).bind (·.get? label) ≠ none → known label
  keys : ∀ (i : Nat) label, (c.frame.rows[i]?).bind (·.keys.get? label) = none

namespace Recalls

variable {known : String → Prop} {c : Context} (h : c.Recalls known)
include h

theorem remembered? {engine : Engine} {i : Nat} {label : String}
    (hm : c.remembered? engine i label ≠ none) : known label := by
  refine h.memo i label fun hnone => hm ?_
  rw [Context.remembered?, hnone, h.keys]
  cases engine.remembers <;> rfl

omit h in
theorem of_forgotten (hmemo : c.Forgotten)
    (hkeys : ∀ (i : Nat) label, (c.frame.rows[i]?).bind (·.keys.get? label) = none) :
    c.Recalls known where
  memo i label hm := by
    rw [hmemo, Array.getElem?_replicate] at hm
    split at hm <;> exact absurd rfl hm
  keys := hkeys

theorem remember {label : String} (hlabel : known label) (engine : Engine) (i : Nat) (v : Value) :
    (c.remember engine i label v).Recalls known := by
  rw [Context.remember]
  split
  · refine ⟨fun k other hm => ?_, h.keys⟩
    by_cases hother : other = label
    · exact hother ▸ hlabel
    · refine h.memo k other ?_
      rw [Array.getElem?_modify] at hm
      split at hm
      · simpa only [Option.bind_map, Function.comp_def,
          fun m : Labelled Value => m.get?_put_ne v hother] using hm
      · exact hm
  · exact h

theorem collapse : c.collapse.Recalls known := by
  constructor
  · intro i label hm
    rw [collapse_eq] at hm
    dsimp only at hm
    rw [Array.getElem?_extract] at hm
    split at hm
    · exact h.memo _ label hm
    · exact absurd rfl hm
  · intro i label
    rw [rows_collapse, Array.getElem?_map, Option.bind_map, Array.getElem?_extract]
    split
    · simpa [Function.comp_def] using h.keys _ label
    · rfl

omit h in
theorem keys_take {f : Frame} (h : ∀ (i : Nat) label, (f.rows[i]?).bind (·.keys.get? label) = none)
    (places : List Nat) (i : Nat) (label : String) :
    ((f.take places).rows[i]?).bind (·.keys.get? label) = none := by
  rw [Frame.take, List.getElem?_toArray, List.getElem?_map, Option.bind_map]
  cases hp : places[i]? with
  | none => rfl
  | some p =>
    have hkeys := h p label
    cases hr : f.rows[p]? with
    | none => simp [hr]
    | some r =>
      rw [hr] at hkeys
      simpa [Function.comp_def, hr] using hkeys

theorem replaceFrame (places : List Nat) :
    (c.replaceFrame (c.frame.take places)).Recalls known :=
  of_forgotten rfl (keys_take h.keys places)

theorem reorder (places : List Nat) : (c.reorder places).Recalls known := by
  refine ⟨fun i label hm => ?_, keys_take h.keys places⟩
  rw [Context.reorder, List.getElem?_toArray, List.getElem?_map, Option.bind_map] at hm
  cases hp : places[i]? with
  | none =>
    rw [hp] at hm
    exact absurd rfl hm
  | some p =>
    rw [hp] at hm
    refine h.memo p label fun hnone => hm ?_
    cases hr : c.memo[p]? with
    | none => simp [hr]
    | some r =>
      rw [hr] at hnone
      simpa [Function.comp_def, hr] using hnone

theorem noted {new : Frame → Prop} {f : Frame} (hf : c.frame.Noted new f) :
    Recalls known { c with frame := f } := by
  refine ⟨h.memo, fun i label => ?_⟩
  have hkeys := congrArg (Option.bind · (·.get? label)) (hf.keys i)
  simp only [Option.bind_map] at hkeys
  exact hkeys.trans (h.keys i label)

end Recalls

end Context

namespace Step

variable {engine : Engine} {known : String → Prop}

/-- The evaluation of expressions whose labels are known. -/
def recallsSimulation (engine : Engine) (known : String → Prop) : SelfSimulation engine where
  Index := Nat
  row i := i
  otherRow i := i
  inAggregate _ := false
  relation _ := .keeps (Context.Recalls known)
  admits := Expr.Labels known
  operand h hp q hq := h q (.trans hq (.operand hp (.self _)))
  readField _ name := ⟨rfl, fun c x d hc h => by
    obtain ⟨-, rfl⟩ := readField_eq_ok h
    exact ⟨hc.memo, hc.keys⟩⟩
  readQualified _ table name := ⟨rfl, fun c x d hc h => by
    obtain ⟨-, rfl⟩ := readQualified_eq_ok h
    exact ⟨hc.memo, hc.keys⟩⟩
  readWindow _ _ _ _ _ _ := ⟨rfl, fun c x d hc h => readWindow_eq_ok h ▸ hc⟩
  call i _ _ q _ _ _ hf := (StepRelation.keeps _).call rfl (fun _ _ _ _ _ => trivial)
    (fun _ _ => hf) fun h _ => by
    refine (StepRelation.keeps _).bind ⟨rfl, ?_⟩ fun _ => (StepRelation.keeps _).lift fun _ _ => trivial
    intro c g d hc he
    obtain ⟨-, -, rfl⟩ | ⟨-, -, rfl⟩ := groupOf_eq_ok he
    · exact ⟨hc.memo, hc.keys⟩
    · exact hc.collapse
  value i e he h := ⟨rfl, h.2.value (fun hc _ _ => hc)
    (fun v hc hr => hc.remember (he e (.self e) hr) engine i v) fun hc => hc⟩

/-- Operations remember values under known labels if they evaluate nothing else. -/
theorem lasting_recalls (engine : Engine) (known : String → Prop) :
    Lasting engine (Expr.Labels known) (Context.Recalls known) fun _ => Context.Recalls known where
  operand h hp := (recallsSimulation engine known).operand h hp
  values hes := .of_size fun n => (Ensures.rows (n := n) fun i =>
      ((recallsSimulation engine known).values hes i).2).mono
    (fun _ hc => ⟨hc.1, Nat.le_of_eq hc.2⟩) fun _ _ hd => hd.1
  holds he := .of_size fun n => (Ensures.rows (n := n) fun i =>
      ((recallsSimulation engine known).holds he (x := i) rfl).2).mono
    (fun _ hc => ⟨hc.1, Nat.le_of_eq hc.2⟩) fun _ _ hd => hd.1
  filtered h _ := ⟨(h.replaceFrame _).memo, (h.replaceFrame _).keys⟩
  sorted h _ := ⟨(h.reorder _).memo, (h.reorder _).keys⟩
  partitioned h hf := ⟨(h.noted hf).memo, (h.noted hf).keys⟩
  noted h hf := h.noted hf
  limited h _ := h.reorder _

end Step

/-! ### What rows are put in order by -/

/-- The expression is one to sort by, or the one that an alias to sort by stands for. -/
def Expr.SortedBy (exprs : List Expr) (order : List OrderItem) (e : Expr) : Prop :=
  ∃ item ∈ order, e = item.expr ∨
    ∃ name, item.expr.body = .field name ∧ ∃ s ∈ exprs, s.body = .aliased e name

/-- The expression is evaluated to put rows in order: they are sorted by it, or partitioned by it for
a window. -/
def Expr.OrderedBy (exprs : List Expr) (order : List OrderItem) (e : Expr) : Prop :=
  e.SortedBy exprs order ∨ ∃ w, (w ∈ exprs ∨ w.SortedBy exprs order) ∧ e ∈ w.partition

/-- A value is remembered under the label when rows are put in order. -/
def OrderLabel (exprs : List Expr) (order : List OrderItem) (label : String) : Prop :=
  ∃ e : Expr, e.OrderedBy exprs order ∧ ∃ r : Expr, r.Within e ∧ r.isRemembered = true ∧ r.label = label

theorem Context.sortedBy_orderItem (c : Context) (exprs : List Expr) {order : List OrderItem}
    {item : OrderItem} (h : item ∈ order) :
    (c.orderItem exprs item).expr.SortedBy exprs order := by
  rw [orderItem]
  split
  · rename_i name hbody
    split
    · exact ⟨item, h, .inl rfl⟩
    · dsimp only
      split
      · rename_i inner hfound
        obtain ⟨s, hs, hsome⟩ := List.exists_of_findSome?_eq_some hfound
        split at hsome
        · split at hsome
          · rename_i e a hbody' ha
            cases hsome
            exact ⟨item, h, .inr ⟨name, hbody, s, hs, ha ▸ hbody'⟩⟩
          · cases hsome
        · cases hsome
      · exact ⟨item, h, .inl rfl⟩
  · exact ⟨item, h, .inl rfl⟩

namespace Step

variable {engine : Engine} {known : String → Prop} {exprs : List Expr} {order : List OrderItem}

theorem recalls_arranged (h : ∀ e : Expr, e.OrderedBy exprs order → e.Labels known) :
    Ensures (Context.Recalls known) (arranged engine exprs order) fun _ => Context.Recalls known := by
  have L := lasting_recalls engine known
  rw [arranged]
  refine Ensures.bind (Q := fun _ => Context.Recalls known) (.forM _ fun e he => ?_) fun _ => ?_
  · exact L.computeWindow e fun p hp => h p (.inr ⟨e, .inl he, hp⟩)
  · rw [arrange]
    refine .ite (fun _ => .get_bind fun c hc => Ensures.discard ?_) fun _ => .pure _ fun _ hc => hc
    refine (L.orderBy fun item hitem => ?_).mono (fun d (hd : d = c) => hd ▸ hc) fun _ _ hd => hd
    obtain ⟨written, hwritten, rfl⟩ := List.mem_map.mp hitem
    have hsorted := c.sortedBy_orderItem exprs hwritten
    exact ⟨h _ (.inl hsorted), fun p hp => h p (.inr ⟨_, .inr hsorted, hp⟩)⟩

end Step

end TableQuery
