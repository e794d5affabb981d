/-
What steps leave behind.

`Ensures P s Q` says that `s`, from every context with `P` and whenever it gives a value, leaves a
context with `Q`; nothing is said about a step that fails. Whatever a look at a row keeps (`Steady`) is
carried through the evaluation of expressions (`Steady.evaluate`).
-/
import TableQuery.Proofs.Locality

namespace TableQuery

namespace Step

variable {α β : Type} {P : Context → Prop} {Q : α → Context → Prop} {R : β → Context → Prop}
  {I : Context → Prop}

/-- With a value the step leaves a context for which the second condition holds. -/
def Ensures (P : Context → Prop) (s : Step α) (Q : α → Context → Prop) : Prop :=
  ∀ ⦃c a d⦄, P c → s c = .ok a d → Q a d

namespace Ensures

theorem pure (a : α) (h : ∀ c, P c → Q a c) : Ensures P (pure a) Q := by
  intro c b d hc he
  cases he
  exact h c hc

theorem throw (e : ExecutionError) : Ensures P (throw e) Q := by
  intro c b d hc he
  cases he

theorem throw_bind (e : ExecutionError) (f : β → Step α) : Ensures P (MonadExcept.throw e >>= f) Q := by
  intro c b d hc he
  cases he

theorem lift (r : Except ExecutionError α) (h : ∀ c a, P c → r = .ok a → Q a c) :
    Ensures P (lift r) Q := by
  cases r with
  | ok a => exact .pure a fun c hc => h c a hc rfl
  | error e => exact .throw e

theorem modify {Q : PUnit → Context → Prop} (f : Context → Context) (h : ∀ c, P c → Q ⟨⟩ (f c)) :
    Ensures P (modify f) Q := by
  intro c b d hc he
  cases he
  exact h c hc

theorem set {Q : PUnit → Context → Prop} (d : Context) (h : Q ⟨⟩ d) : Ensures P (set d) Q := by
  intro c b d hc he
  cases he
  exact h

theorem mono {P' : Context → Prop} {Q' : α → Context → Prop} {s : Step α} (h : Ensures P s Q)
    (hP : ∀ c, P' c → P c) (hQ : ∀ a c, Q a c → Q' a c) : Ensures P' s Q' :=
  fun _ _ _ hc he => hQ _ _ (h (hP _ hc) he)

theorem bind {s : Step α} {f : α → Step β} (h : Ensures P s Q) (hf : ∀ a, Ensures (Q a) (f a) R) :
    Ensures P (s >>= f) R := by
  intro c b d hc he
  have hbind : EStateM.bind s f c = .ok b d := he
  rw [EStateM.bind] at hbind
  split at hbind
  · exact hf _ (h hc ‹_›) hbind
  · cases hbind

/-- The count of rows before a step may be named. -/
theorem of_size {s : Step α} (h : ∀ n, Ensures (fun c => P c ∧ c.size = n) s Q) : Ensures P s Q :=
  fun _ _ _ hc he => h _ ⟨hc, rfl⟩ he

/-- What is found out about the context before a step. -/
theorem get_bind {f : Context → Step α} (h : ∀ c, P c → Ensures (· = c) (f c) Q) :
    Ensures P (get >>= f) Q :=
  fun c _ _ hc he => h c hc rfl he

theorem discard {Q : Context → Prop} {s : Step α} (h : Ensures P s fun _ => Q) :
    Ensures P (discard s) fun _ => Q :=
  h.bind fun _ => .pure _ fun _ hc => hc

theorem ite {p : Prop} [Decidable p] {s t : Step α} (hs : p → Ensures P s Q)
    (ht : ¬p → Ensures P t Q) : Ensures P (if p then s else t) Q := by
  by_cases h : p
  · rw [if_pos h]; exact hs h
  · rw [if_neg h]; exact ht h

theorem trivial (s : Step α) : Ensures P s fun _ _ => True := fun _ _ _ _ _ => True.intro

/-- What every action of a loop keeps is kept by the loop, and what holds of every result holds of
all of them. -/
theorem mapM {V : α → Prop} {f : β → Step α} (l : List β)
    (h : ∀ b ∈ l, Ensures I (f b) fun a d => I d ∧ V a) :
    Ensures I (l.mapM f) fun as d => I d ∧ ∀ a ∈ as, V a := by
  induction l with
  | nil => exact .pure [] fun c hc => ⟨hc, fun a ha => by cases ha⟩
  | cons b l ih =>
    rw [List.mapM_cons]
    refine (h b List.mem_cons_self).bind fun a => ?_
    intro c as d hc he
    refine (ih fun b' hb' => h b' (List.mem_cons_of_mem b hb')).bind
      (R := fun as d => I d ∧ ∀ a ∈ as, V a) (fun as => ?_) hc.1 he
    exact .pure _ fun d hd => ⟨hd.1, List.forall_mem_cons.mpr ⟨hc.2, hd.2⟩⟩

theorem forM {f : β → Step PUnit} (l : List β) (h : ∀ b ∈ l, Ensures I (f b) fun _ => I) :
    Ensures I (l.forM f) fun _ => I := by
  induction l with
  | nil => exact .pure _ fun c hc => hc
  | cons b l ih =>
    show Ensures I (f b >>= fun _ => l.forM f) fun _ => I
    exact (h b List.mem_cons_self).bind fun _ => ih fun b' hb' => h b' (List.mem_cons_of_mem b hb')

theorem forM_option {f : β → Step PUnit} (o : Option β)
    (h : ∀ b ∈ o, Ensures I (f b) fun _ => I) : Ensures I (o.forM f) fun _ => I := by
  cases o with
  | none => exact .pure _ fun c hc => hc
  | some b => exact h b rfl

theorem rowsAfter {action : Nat → Step α} (h : ∀ i, Ensures I (action i) fun _ => I) (n : Nat) :
    ∀ done : Array α,
      Ensures I (rowsAfter action done n) fun as d => I d ∧ as.size ≤ done.size + n := by
  induction n with
  | zero => exact fun done => .pure done fun c hc => ⟨hc, Nat.le_refl _⟩
  | succ n ih =>
    intro done
    rw [Step.rowsAfter]
    refine .get_bind fun c hc => .ite (fun _ => ?_) fun _ => ?_
    · refine ((h done.size).mono (fun d (hd : d = c) => hd ▸ hc) fun _ _ h => h).bind fun a => ?_
      refine (ih (done.push a)).mono (fun _ h => h) fun as d hd => ⟨hd.1, ?_⟩
      have hsize := hd.2
      rw [Array.size_push] at hsize
      omega
    · exact .pure done fun d (hd : d = c) => ⟨hd ▸ hc, by omega⟩

/-- A loop over rows keeps what each action keeps, and gives at most as many results as there were
rows. -/
theorem rows {action : Nat → Step α} {n : Nat} (h : ∀ i, Ensures I (action i) fun _ => I) :
    Ensures (fun c => I c ∧ c.size ≤ n) (rows action) fun as d => I d ∧ as.size ≤ n := by
  rw [Step.rows]
  refine .get_bind fun c hc => ?_
  refine (rowsAfter h c.size #[]).mono (fun d (hd : d = c) => hd ▸ hc.1) fun as d hd => ⟨hd.1, ?_⟩
  have hsize := hd.2
  have hc := hc.2
  simp at hsize
  omega

end Ensures

end Step

/-- A step beside itself that keeps a condition. -/
def StepRelation.keeps (I : Context → Prop) : StepRelation where
  rel s t := s = t ∧ Step.Ensures I s fun _ => I
  raises _ := True
  raises_of_isInternal _ := trivial
  pure a := ⟨rfl, .pure a fun _ h => h⟩
  throw _ := ⟨rfl, .throw _⟩
  bind h hf := ⟨by rw [h.1, funext fun a => (hf a).1], h.2.bind fun a => (hf a).2⟩

namespace Step

variable {I : Context → Prop}

/-! ### Evaluation -/

/-- The value of an expression is remembered already, or it is computed, and then remembered if it has
a label. -/
theorem Ensures.value {engine : Engine} {e : Expr} {i : Nat} {b : Bool} {P Q R : Context → Prop}
    (h : Ensures P ((e.evaluator engine).compute i b) fun _ => Q)
    (hmemo : ∀ {c}, P c → e.isRemembered = true → c.remembered? engine i e.label ≠ none → R c)
    (hremember : ∀ {c} v, Q c → e.isRemembered = true → R (c.remember engine i e.label v))
    (hcomputed : ∀ {c}, Q c → R c) :
    Ensures P ((e.evaluator engine).value engine i b) fun _ => R := by
  have hl := e.label?_evaluator engine
  rw [Expr.rememberedLabel?] at hl
  intro c x d hc hs
  by_cases hr : e.isRemembered = true
  · rw [if_pos hr] at hl
    cases hx : c.remembered? engine i e.label with
    | some y =>
      rw [Evaluator.value_of_remembered hl hx] at hs
      cases hs
      exact hmemo hc hr fun hnone => by rw [hx] at hnone; cases hnone
    | none =>
      obtain ⟨c', hcompute, rfl⟩ := Evaluator.exists_of_value_of_not_remembered hl hx hs
      exact hremember x (h hc hcompute) hr
  · rw [if_neg hr] at hl
    rw [Evaluator.value_of_label?_eq_none hl] at hs
    exact hcomputed (h hc hs)

/-- What a look at a row keeps, with or without aggregates. -/
structure Steady (engine : Engine) (aggregates : Prop) (I : Context → Prop) : Prop where
  note : ∀ {c}, I c → I { c with sawPlainColumn := true }
  remember : ∀ {c} i label v, I c → I (c.remember engine i label v)
  groupOf : aggregates → ∀ i, Ensures I (groupOf i) fun _ => I

namespace Steady

variable {engine : Engine} {aggregates : Prop} (S : Steady engine aggregates I)
include S

/-- The relation of a context with itself as long as the condition holds. -/
def relation : RowRelation engine where
  Index := Nat
  row i := i
  otherRow i := i
  related _ c d := c = d ∧ I c
  aggregates := aggregates
  sameRow h := h.1 ▸ .refl _ _
  note h := ⟨by rw [h.1], S.note h.2⟩
  remember label v h := ⟨by rw [h.1], S.remember _ label v h.2⟩
  groupOf hagg i c d h := by
    obtain ⟨rfl, hc⟩ := h
    cases hg : Step.groupOf i c with
    | ok g d => exact .ok g ⟨rfl, S.groupOf hagg i hc hg⟩
    | error e d => exact .error e

omit S in
theorem ensures {α : Type} {s : Step α}
    (h : Simulates (fun c d => c = d ∧ I c) (fun _ => False) s s) : Ensures I s fun _ => I := by
  intro c a d hc he
  have hs := h ⟨rfl, hc⟩
  rw [he] at hs
  cases hs with
  | ok _ h => exact h.2

theorem evaluate {e : Expr} (he : aggregates ∨ e.AggregateFree engine.functions) (i : Nat)
    (b : Bool) : Ensures I ((e.evaluator engine).value engine i b) fun _ => I :=
  ensures (S.relation.evaluate (x := i) he b)

theorem values {es : List Expr} (hes : ∀ e ∈ es, aggregates ∨ e.AggregateFree engine.functions)
    (i : Nat) (b : Bool) :
    Ensures I (Evaluator.values engine (Expr.evaluators engine es) i b) fun _ => I :=
  ensures (S.relation.values (x := i) hes b)

theorem holds {e : Expr} (he : aggregates ∨ e.AggregateFree engine.functions) (i : Nat) :
    Ensures I ((e.evaluator engine).holds engine i) fun _ => I :=
  ensures (S.relation.holds (x := i) he)

end Steady

end Step

end TableQuery
