/-
Two steps side by side.

`Step.Couples R s t R'` says that `s` and `t`, from contexts related by `R`, give the same value and
leave contexts that `R'` relates, or fail with the same error. Only where `t` finds columns and
aggregates mixed may `s` do anything. There is a rule for each way in which steps are put together:

* `Couples.bind`, `Couples.get_bind`, `Couples.forM` — steps one after the other;
* `Couples.mapM_from`, `Couples.rows_from` — loops, where the relation speaks of the item that is next;
* `Couples.ensures` — what the second step ensures by itself;
* `Couples.runIn` — the results in contexts of their own.
-/
import TableQuery.Proofs.Ensures

namespace TableQuery.Step

variable {α β : Type} {R S : Context → Context → Prop} {Q : α → Context → Context → Prop}
  {P : β → Context → Context → Prop}

/-- Results that are the same, unless the second is that columns and aggregates are mixed. -/
def Matches (r r' : Except ExecutionError α) : Prop := r = r' ∨ r' = .error .mixedAggregate

namespace Matches

theorem refl (r : Except ExecutionError α) : Matches r r := .inl rfl

theorem bind {r r' : Except ExecutionError α} {f g : α → Except ExecutionError β}
    (h : Matches r r') (hf : ∀ a, Matches (f a) (g a)) : Matches (r >>= f) (r' >>= g) := by
  rcases h with rfl | rfl
  · cases r with
    | ok a => exact hf a
    | error e => exact .refl _
  · exact .inr rfl

theorem mapM {f g : β → Except ExecutionError α} (l : List β) (h : ∀ b ∈ l, Matches (f b) (g b)) :
    Matches (l.mapM f) (l.mapM g) := by
  induction l with
  | nil => exact .refl _
  | cons b l ih =>
    rw [List.mapM_cons, List.mapM_cons]
    refine (h b List.mem_cons_self).bind fun a => ?_
    exact (ih fun b' hb' => h b' (List.mem_cons_of_mem b hb')).bind fun as => .refl _

end Matches

/-- Outcomes with the same value and related contexts, or with the same error, or of which the second
is that columns and aggregates are mixed. -/
inductive Coupled (Q : α → Context → Context → Prop) : Outcome α → Outcome α → Prop
  | ok {a : α} {c d : Context} : Q a c d → Coupled Q (.ok a c) (.ok a d)
  | error (e : ExecutionError) {c d : Context} : Coupled Q (.error e c) (.error e d)
  | mixed (r : Outcome α) (d : Context) : Coupled Q r (.error .mixedAggregate d)

/-- From related contexts both steps come to the same. -/
def Couples (R : Context → Context → Prop) (s t : Step α) (Q : α → Context → Context → Prop) :
    Prop :=
  ∀ ⦃c d⦄, R c d → Coupled Q (s c) (t d)

namespace Couples

theorem of_simulates {s t : Step α} (h : Simulates R (· = .mixedAggregate) s t) :
    Couples R s t fun _ => R := by
  intro c d hcd
  have hst := h hcd
  generalize s c = r at hst ⊢
  generalize t d = r' at hst ⊢
  cases hst with
  | ok a h' => exact .ok h'
  | error e => exact .error e
  | excused he => subst he; exact .mixed _ _

theorem mono {s t : Step α} {Q' : α → Context → Context → Prop} (h : Couples R s t Q)
    (hR : ∀ c d, S c d → R c d) (hQ : ∀ a c d, Q a c d → Q' a c d) : Couples S s t Q' := by
  intro c d hcd
  have hst := h (hR c d hcd)
  generalize s c = r at hst ⊢
  generalize t d = r' at hst ⊢
  cases hst with
  | ok h' => exact .ok (hQ _ _ _ h')
  | error e => exact .error e
  | mixed => exact .mixed _ _

theorem pure (a : α) (h : ∀ c d, R c d → Q a c d) : Couples R (pure a) (pure a) Q :=
  fun c d hcd => .ok (h c d hcd)

theorem throw (e : ExecutionError) : Couples R (throw e) (throw e) Q := fun _ _ _ => .error e

theorem throw_bind (e : ExecutionError) (f g : β → Step α) :
    Couples R (MonadExcept.throw e >>= f) (MonadExcept.throw e >>= g) Q := fun _ _ _ => .error e

/-- Results that match where they come from. -/
theorem lift {r r' : Except ExecutionError α} (hr : Matches r r')
    (h : ∀ a c d, r = .ok a → R c d → Q a c d) : Couples R (lift r) (lift r') Q := by
  rcases hr with rfl | rfl
  · cases r with
    | ok a => exact .pure a fun c d hcd => h a c d rfl hcd
    | error e => exact .throw e
  · exact fun c d _ => .mixed _ _

theorem modify {Q : PUnit → Context → Context → Prop} {f g : Context → Context}
    (h : ∀ c d, R c d → Q ⟨⟩ (f c) (g d)) : Couples R (modify f) (modify g) Q :=
  fun c d hcd => .ok (h c d hcd)

theorem set {Q : PUnit → Context → Context → Prop} {c' d' : Context}
    (h : ∀ c d, R c d → Q ⟨⟩ c' d') : Couples R (set c') (set d') Q :=
  fun c d hcd => .ok (h c d hcd)

theorem bind {s t : Step α} {f g : α → Step β} (h : Couples R s t Q)
    (hf : ∀ a, Couples (Q a) (f a) (g a) P) : Couples R (s >>= f) (t >>= g) P := by
  intro c d hcd
  have hst := h hcd
  show Coupled P (EStateM.bind s f c) (EStateM.bind t g d)
  rw [EStateM.bind, EStateM.bind]
  generalize s c = r at hst ⊢
  generalize t d = r' at hst ⊢
  cases hst with
  | ok h' => exact hf _ h'
  | error e => exact .error e
  | mixed => exact .mixed _ _

/-- What is found out about the contexts before a step. -/
theorem get_bind {f g : Context → Step α}
    (h : ∀ c d, R c d → Couples (fun c' d' => c' = c ∧ d' = d) (f c) (g d) Q) :
    Couples R (get >>= f) (get >>= g) Q := fun c d hcd => h c d hcd ⟨rfl, rfl⟩

theorem discard {Q : Context → Context → Prop} {s t : Step α} (h : Couples R s t fun _ => Q) :
    Couples R (discard s) (discard t) fun _ => Q :=
  h.bind fun _ => .pure _ fun _ _ hcd => hcd

theorem ite {p : Prop} [Decidable p] {s t s' t' : Step α} (h : p → Couples R s t Q)
    (h' : ¬p → Couples R s' t' Q) : Couples R (if p then s else s') (if p then t else t') Q := by
  by_cases hp : p
  · rw [if_pos hp, if_pos hp]
    exact h hp
  · rw [if_neg hp, if_neg hp]
    exact h' hp

/-- What is known apart from the contexts. -/
theorem of_imp {p : Prop} {s t : Step α} (h : p → Couples R s t Q) :
    Couples (fun c d => R c d ∧ p) s t Q := fun _ _ hcd => h hcd.2 hcd.1

theorem forM {f g : β → Step PUnit} (l : List β)
    (h : ∀ b ∈ l, Couples R (f b) (g b) fun _ => R) :
    Couples R (l.forM f) (l.forM g) fun _ => R := by
  induction l with
  | nil => exact .pure _ fun _ _ hcd => hcd
  | cons b l ih =>
    show Couples R (f b >>= fun _ => l.forM f) (g b >>= fun _ => l.forM g) fun _ => R
    exact (h b List.mem_cons_self).bind fun _ => ih fun b' hb' => h b' (List.mem_cons_of_mem b hb')

theorem forM_option {f g : β → Step PUnit} (o : Option β)
    (h : ∀ b ∈ o, Couples R (f b) (g b) fun _ => R) :
    Couples R (o.forM f) (o.forM g) fun _ => R := by
  cases o with
  | none => exact .pure _ fun _ _ hcd => hcd
  | some b => exact h b rfl

/-- Actions for the items of a list. The relation speaks of the item that is next. -/
theorem mapM_from {T : Nat → Context → Context → Prop} {f g : β → Step α} (l : List β) :
    ∀ k, (∀ n (h : n < l.length), Couples (T (k + n)) (f l[n]) (g l[n]) fun _ => T (k + n + 1)) →
      Couples (T k) (l.mapM f) (l.mapM g) fun _ => T (k + l.length) := by
  induction l with
  | nil => exact fun k _ => .pure [] fun _ _ hcd => hcd
  | cons b l ih =>
    intro k h
    rw [List.mapM_cons, List.mapM_cons]
    have hrest := ih (k + 1) fun n hn => by
      have hn' := h (n + 1) (Nat.succ_lt_succ hn)
      rwa [← Nat.add_assoc, Nat.add_right_comm k n 1] at hn'
    rw [Nat.add_assoc, Nat.add_comm 1] at hrest
    refine (h 0 (Nat.succ_pos _)).bind fun a => ?_
    exact hrest.bind fun as => .pure _ fun _ _ hcd => hcd

/-- Actions in one row after the other. The relation speaks of the row that is next. -/
theorem rows_from {T : Nat → Context → Context → Prop} {f g : Nat → Step α}
    (hsize : ∀ i c d, T i c d → d.size = c.size)
    (h : ∀ i, Couples (fun c d => T i c d ∧ i < c.size) (f i) (g i) fun _ => T (i + 1)) :
    Couples (T 0) (rows f) (rows g) fun as => T as.size := by
  have hafter : ∀ (n : Nat) (done : Array α),
      Couples (T done.size) (rowsAfter f done n) (rowsAfter g done n) fun as => T as.size := by
    intro n
    induction n with
    | zero => exact fun done => .pure done fun _ _ hcd => hcd
    | succ n ih =>
      intro done
      rw [rowsAfter, rowsAfter]
      refine .get_bind fun c d hcd => ?_
      rw [hsize _ c d hcd]
      refine .ite (fun hlt => ?_) fun _ => ?_
      · have hnext := (h done.size).mono (S := fun c' d' => c' = c ∧ d' = d)
          (fun c' d' h' => by rw [h'.1, h'.2]; exact ⟨hcd, hlt⟩) fun _ _ _ h => h
        refine hnext.bind fun a => ?_
        have hrest := ih (done.push a)
        rwa [Array.size_push] at hrest
      · exact .pure done fun c' d' h' => by rw [h'.1, h'.2]; exact hcd
  rw [rows, rows]
  refine .get_bind fun c d hcd => ?_
  rw [hsize 0 c d hcd]
  exact (hafter c.size #[]).mono (fun c' d' h' => by rw [h'.1, h'.2]; exact hcd) fun _ _ _ h => h

/-- What the second step ensures is known along with its value. -/
theorem ensures {s t : Step α} {I : Context → Prop} {J : α → Context → Prop}
    (h : Couples R s t Q) (ht : Ensures I t J) :
    Couples (fun c d => R c d ∧ I d) s t fun a c d => Q a c d ∧ J a d := by
  rintro c d ⟨hcd, hd⟩
  have hst := h hcd
  have ht := fun a d' => ht (c := d) (a := a) (d := d') hd
  generalize s c = r at hst ⊢
  generalize t d = r' at hst ht ⊢
  cases hst with
  | ok h' => exact .ok ⟨h', ht _ _ rfl⟩
  | error e => exact .error e
  | mixed => exact .mixed _ _

/-- Both steps answer alike in contexts of their own. -/
theorem runIn {s t : Step α} (h : Couples R s t Q) {c d : Context} (hcd : R c d) :
    Matches (s.runIn c) (t.runIn d) := by
  have hst := h hcd
  rw [Step.runIn, Step.runIn, EStateM.run, EStateM.run]
  generalize s c = r at hst ⊢
  generalize t d = r' at hst ⊢
  cases hst with
  | ok => exact .inl rfl
  | error e => exact .inl rfl
  | mixed => exact .inr rfl

end Couples

end TableQuery.Step
