/-
What steps answer.

`s.Answers c Q r` says that the step `s` comes to `r` in the context `c`, a value or an error, and
that `Q` holds of a value and the context that is left with it. There is a rule for each way in
which steps are put together; the rules for loops carry an invariant along:

* `Answers.mapM` — an action for every item of a list;
* `Answers.rows` — an action for every row.
-/
import TableQuery.Context.Basic

namespace TableQuery.Step

variable {α β : Type} {c : Context} {s : Step α} {Q : α → Context → Prop}
  {r : Except ExecutionError α}

theorem get_bind (f : Context → Step α) (c : Context) : (get >>= f) c = f c c := rfl

theorem bind_of_ok {s : Step α} {f : α → Step β} {c d : Context} {a : α} (h : s c = .ok a d) :
    (s >>= f) c = f a d := by
  have hbind : (s >>= f) c = EStateM.bind s f c := rfl
  rw [hbind, EStateM.bind, h]

theorem bind_of_error {s : Step α} {f : α → Step β} {c d : Context} {e : ExecutionError}
    (h : s c = .error e d) : (s >>= f) c = .error e d := by
  have hbind : (s >>= f) c = EStateM.bind s f c := rfl
  rw [hbind, EStateM.bind, h]

theorem discard_of_ok {c d : Context} {a : α} (h : s c = .ok a d) : discard s c = .ok () d := by
  show (s >>= fun _ => pure ()) c = _
  rw [bind_of_ok h]
  rfl

/-- Steps one after the other give a value only if each of them does. -/
theorem exists_of_bind_eq_ok {s : Step α} {f : α → Step β} {c d : Context} {b : β}
    (h : (s >>= f) c = .ok b d) : ∃ a c', s c = .ok a c' ∧ f a c' = .ok b d := by
  cases hs : s c with
  | ok a c' => exact ⟨a, c', rfl, by rwa [bind_of_ok hs] at h⟩
  | error e c' =>
    have hbind : (s >>= f) c = EStateM.bind s f c := rfl
    rw [hbind, EStateM.bind, hs] at h
    cases h

theorem runIn_eq_ok {c : Context} {a : α} : s.runIn c = .ok a ↔ ∃ d, s c = .ok a d := by
  rw [runIn, EStateM.run]
  cases s c with
  | ok b d => simp
  | error e d => simp

theorem runIn_eq_error {c : Context} {e : ExecutionError} :
    s.runIn c = .error e ↔ ∃ d, s c = .error e d := by
  rw [runIn, EStateM.run]
  cases s c <;> simp

theorem lift_eq_ok {c d : Context} {r : Except ExecutionError α} {a : α} (h : lift r c = .ok a d) :
    r = .ok a ∧ d = c := by
  cases r with
  | ok b => cases h; exact ⟨rfl, rfl⟩
  | error e => cases h

theorem eq_ok_of_toOption {ε : Type} {r : Except ε α} {a : α} (h : r.toOption = some a) :
    r = .ok a := by
  cases r with
  | ok b => exact congrArg Except.ok (Option.some.inj h)
  | error e => cases h

theorem runIn_bind_pure (s : Step α) (f : α → β) (c : Context) :
    (s >>= fun a => pure (f a)).runIn c = (s.runIn c).map f := by
  have hbind : (s >>= fun a => pure (f a)) c = EStateM.bind s (fun a => pure (f a)) c := rfl
  rw [runIn, runIn, EStateM.run, EStateM.run, hbind, EStateM.bind]
  cases s c <;> rfl

theorem runIn_bind_of_ok {s : Step α} {f : α → Step β} {c d : Context} {a : α}
    (h : s c = .ok a d) : (s >>= f).runIn c = (f a).runIn d := by
  have hbind : (s >>= f) c = EStateM.bind s f c := rfl
  rw [runIn, runIn, EStateM.run, EStateM.run, hbind, EStateM.bind, h]

theorem runIn_bind_of_error {s : Step α} {f : α → Step β} {c d : Context} {e : ExecutionError}
    (h : s c = .error e d) : (s >>= f).runIn c = .error e := by
  rw [runIn, EStateM.run, bind_of_error h]

theorem runIn_lift (r : Except ExecutionError α) (c : Context) : (lift r).runIn c = r := by
  cases r <;> rfl

theorem exists_of_map_eq_ok {ε : Type} {r : Except ε α} {f : α → β} {b : β}
    (h : r.map f = .ok b) : ∃ a, r = .ok a ∧ b = f a := by
  cases r with
  | error e => cases h
  | ok a => exact ⟨a, rfl, (Except.ok.inj h).symm⟩

/-- If there is a result, the first item has a value, and so have the others. -/
theorem mapM_cons_eq_ok {ε : Type} {b : β} {l : List β} {f : β → Except ε α} {as : List α}
    (h : (b :: l).mapM f = .ok as) :
    ∃ a as', f b = .ok a ∧ l.mapM f = .ok as' ∧ as = a :: as' := by
  rw [List.mapM_cons] at h
  cases hb : f b with
  | error e =>
    rw [hb] at h
    cases h
  | ok a =>
    cases hl : l.mapM f with
    | error e =>
      rw [hb, hl] at h
      cases h
    | ok as' =>
      rw [hb, hl] at h
      exact ⟨a, as', rfl, rfl, (Except.ok.inj h).symm⟩

theorem mapM_eq_ok {ε : Type} {l : List β} {f : β → Except ε α} {g : β → α}
    (h : ∀ b ∈ l, f b = .ok (g b)) : l.mapM f = .ok (l.map g) := by
  induction l with
  | nil => rfl
  | cons b l ih =>
    rw [List.mapM_cons, h b List.mem_cons_self, ih fun b' hb => h b' (List.mem_cons_of_mem b hb)]
    rfl

/-- Actions for the items of a list all have values if there is a result. -/
theorem exists_of_mapM_eq_ok {ε : Type} [Inhabited α] {l : List β} {f : β → Except ε α} {as : List α}
    (h : l.mapM f = .ok as) : ∃ g : β → α, (∀ b ∈ l, f b = .ok (g b)) ∧ as = l.map g := by
  have hg : ∀ (l : List β) {as}, l.mapM f = .ok as →
      ∀ b ∈ l, f b = .ok ((f b).toOption.getD default) := by
    intro l
    induction l with
    | nil => exact fun _ b hb => by cases hb
    | cons b l ih =>
      intro as h
      obtain ⟨a, as', hb, hl, -⟩ := mapM_cons_eq_ok h
      intro b' hb'
      obtain rfl | hb' := List.mem_cons.mp hb'
      · rw [hb]
        rfl
      · exact ih hl b' hb'
  refine ⟨fun b => (f b).toOption.getD default, hg l h, ?_⟩
  exact Except.ok.inj (h.symm.trans (mapM_eq_ok (hg l h)))

/-- The step comes to the result in the context, and leaves what is wanted along with a value. -/
inductive Answers (s : Step α) (c : Context) (Q : α → Context → Prop) :
    Except ExecutionError α → Prop
  | ok {a : α} {d : Context} : s c = .ok a d → Q a d → Answers s c Q (.ok a)
  | error {e : ExecutionError} {d : Context} : s c = .error e d → Answers s c Q (.error e)

namespace Answers

/-- A step has a single result. -/
theorem runIn (h : Answers s c Q r) : s.runIn c = r := by
  cases h with
  | ok h _ => rw [Step.runIn, EStateM.run, h]
  | error h => rw [Step.runIn, EStateM.run, h]

theorem of_runIn (s : Step α) (c : Context) :
    Answers s c (fun a d => s c = .ok a d) (s.runIn c) := by
  rw [Step.runIn, EStateM.run]
  cases h : s c with
  | ok a d => exact .ok h rfl
  | error e d => exact .error h

/-- Answers that are come to in the same way. -/
theorem of_eq {t : Step α} {d : Context} (ht : Answers t d Q r) (h : s c = t d) :
    Answers s c Q r := by
  cases ht with
  | ok ht hq => exact .ok (h.trans ht) hq
  | error ht => exact .error (h.trans ht)

theorem mono {Q' : α → Context → Prop} (h : Answers s c Q r)
    (hQ : ∀ a d, r = .ok a → Q a d → Q' a d) : Answers s c Q' r := by
  cases h with
  | ok h hq => exact .ok h (hQ _ _ rfl hq)
  | error h => exact .error h

theorem and {Q' : α → Context → Prop} (h : Answers s c Q r) (h' : Answers s c Q' r) :
    Answers s c (fun a d => Q a d ∧ Q' a d) r := by
  cases h with
  | ok h hq =>
    cases h' with
    | ok h' hq' =>
      cases h.symm.trans h'
      exact .ok h ⟨hq, hq'⟩
  | error h => exact .error h

theorem congr {r' : Except ExecutionError α} (h : Answers s c Q r) (hr : r = r') :
    Answers s c Q r' := hr ▸ h

theorem eq_ok {a : α} (h : Answers s c Q (.ok a)) : ∃ d, s c = .ok a d ∧ Q a d := by
  cases h with
  | ok h hq => exact ⟨_, h, hq⟩

/-- What is known of a value that the step gave. -/
theorem of_ok {a : α} {d : Context} (h : Answers s c Q r) (hs : s c = .ok a d) :
    r = .ok a ∧ Q a d := by
  cases h with
  | ok h hq =>
    cases h.symm.trans hs
    exact ⟨rfl, hq⟩
  | error h => cases h.symm.trans hs

theorem pure {a : α} (h : Q a c) : Answers (pure a) c Q (.ok a) := .ok rfl h

theorem throw (e : ExecutionError) : Answers (throw e) c Q (.error e) := .error rfl

theorem get {Q : Context → Context → Prop} (h : Q c c) : Answers get c Q (.ok c) := .ok rfl h

theorem bind {f : α → Step β} {g : α → Except ExecutionError β} {Q' : β → Context → Prop}
    (h : Answers s c Q r) (hf : ∀ a d, r = .ok a → Q a d → Answers (f a) d Q' (g a)) :
    Answers (s >>= f) c Q' (r >>= g) := by
  have hs : (s >>= f) c = EStateM.bind s f c := rfl
  cases h with
  | @ok a d h hq =>
    rw [EStateM.bind, h] at hs
    show Answers (s >>= f) c Q' (g a)
    have hfa := hf a d rfl hq
    generalize g a = r' at hfa ⊢
    cases hfa with
    | ok h' hq' => exact .ok (hs.trans h') hq'
    | error h' => exact .error (hs.trans h')
  | error h =>
    rw [EStateM.bind, h] at hs
    exact .error hs

/-- An action that answers with a function of the items. The invariant speaks of the items that are
done. -/
theorem mapM {f : β → Step α} {g : β → Except ExecutionError α} {I : List β → Context → Prop} :
    ∀ (todo done : List β) {c : Context}, I done c →
    (∀ before b after d, done ++ todo = before ++ b :: after → I before d →
      Answers (f b) d (fun _ d' => I (before ++ [b]) d') (g b)) →
    Answers (todo.mapM f) c (fun _ d => I (done ++ todo) d) (todo.mapM g)
  | [], done, c, h, _ => .pure (by simpa using h)
  | b :: todo, done, c, h, step => by
    rw [List.mapM_cons, List.mapM_cons]
    refine .bind (step done b todo c rfl h) fun a d _ hd => ?_
    have hrest := mapM todo (done ++ [b]) hd fun before b' after d' he =>
      step before b' after d' (by rw [← he]; simp)
    refine .bind hrest fun as d' _ hd' => .pure ?_
    simpa using hd'

theorem rowsAfter {action : Nat → Step α} {g : Nat → Except ExecutionError α}
    {I : Nat → Context → Prop} {size : Nat} (hsize : ∀ k d, I k d → d.size = size)
    (step : ∀ k < size, ∀ d, I k d → Answers (action k) d (fun _ d' => I (k + 1) d') (g k))
    (n : Nat) : ∀ (done : Array α) (d : Context), done.size + n = size → I done.size d →
    Answers (rowsAfter action done n) d (fun _ d' => I size d')
      (((List.range' done.size n).mapM g).map fun as => done ++ as.toArray) := by
  -- by induction on the rows that are left, whose answers come behind those of the rows that are done
  induction n with
  | zero =>
    intro done d hn hd
    have hI : I size d := by rwa [← hn]
    show Answers (Pure.pure done) d (fun _ d' => I size d') (.ok (done ++ #[]))
    rw [Array.append_empty]
    exact .pure hI
  | succ n ih =>
    intro done d hn hd
    have hlt : done.size < d.size := by rw [hsize _ _ hd]; omega
    rw [Step.rowsAfter, List.range'_succ, List.mapM_cons]
    refine (Answers.bind (.get (Q := fun a d' => a = d ∧ d' = d) ⟨rfl, rfl⟩) ?_ : Answers _ _ _
      (Except.ok d >>= fun _ => _))
    rintro _ _ - ⟨rfl, rfl⟩
    rw [if_pos hlt]
    have hstep := step done.size (by omega) _ hd
    refine (hstep.bind (g := fun a => ((List.range' (done.size + 1) n).mapM g).map fun as =>
      done.push a ++ as.toArray) fun a d' _ hd' => ?_).congr ?_
    · have hrest := ih (done.push a) d' (by rw [Array.size_push]; omega)
        (by rwa [Array.size_push])
      rwa [Array.size_push] at hrest
    · cases g done.size with
      | error e => rfl
      | ok a =>
        cases (List.range' (done.size + 1) n).mapM g with
        | error e => rfl
        | ok as => simp [Except.map, Bind.bind, Except.bind, Pure.pure, Except.pure]

/-- An action for every row that answers with a function of the row, and leaves all rows there. The
invariant speaks of the count of rows that are done. -/
theorem rows {action : Nat → Step α} {g : Nat → Except ExecutionError α}
    {I : Nat → Context → Prop} (h : I 0 c) (hsize : ∀ k d, I k d → d.size = c.size)
    (step : ∀ k < c.size, ∀ d, I k d → Answers (action k) d (fun _ d' => I (k + 1) d') (g k)) :
    Answers (rows action) c (fun _ d => I c.size d)
      (((List.range c.size).mapM g).map List.toArray) := by
  have hrows := rowsAfter hsize step c.size #[] c (by simp) h
  rw [Step.rows, List.range_eq_range']
  refine (Answers.bind (.get (Q := fun a d => a = c ∧ d = c) ⟨rfl, rfl⟩) ?_ : Answers _ _ _
    (Except.ok c >>= fun _ => _))
  rintro _ d - ⟨rfl, rfl⟩
  refine hrows.congr ?_
  rw [Array.size_empty]
  cases (List.range' 0 d.size).mapM g with
  | error e => rfl
  | ok as => simp [Except.map]

end Answers

end TableQuery.Step
