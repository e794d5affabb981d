/-
Rows that are alike.

Either all rows are in groups, or none is and nothing tells them apart but their cells. In the second
case an aggregate is called in the first row or in none: before a column is read every row answers like
the first, and afterwards rows do not become one group any more. So a condition or a key gives no more
answers than there are rows afterwards (`Step.Glance.uniform_rows`), and rows that are selected by the answers
are alike again.

* `Context.Uniform` — rows are alike, and all answers belong to rows;
* `Step.lasting_uniform`, `Step.uniform_filter`, `Step.uniform_sortRows` — operations keep to it.
-/
import TableQuery.Proofs.Recomputed

namespace TableQuery

namespace Context

/-- Nothing is known about rows but their cells, apart from results of windows that may not matter. -/
structure Loose (windows : Prop) (c : Context) : Prop where
  group : ∀ i, ¬c.InGroup i
  keys : ∀ (i : Nat) label, (c.frame.rows[i]?).bind (·.keys.get? label) = none
  results : windows → ∀ (i : Nat) label, (c.frame.rows[i]?).bind (·.windows.get? label) = none

/-- All rows are in groups, and so there are at least `n` of them, or no row is. -/
def Uniform (windows : Prop) (n : Nat) (c : Context) : Prop :=
  (n ≤ c.size ∧ ∀ i < c.size, c.InGroup i) ∨ c.Loose windows

variable {W : Prop} {n i : Nat} {c d : Context}

theorem Loose.of_frame (h : c.Loose W) (hd : d.frame = c.frame) : d.Loose W :=
  ⟨fun i => by rw [InGroup, hd]; exact h.group i, fun i label => by rw [hd]; exact h.keys i label,
    fun hw i label => by rw [hd]; exact h.results hw i label⟩

theorem Loose.mono {W' : Prop} (hW : W' → W) (h : c.Loose W) : c.Loose W' :=
  { h with results := fun hw => h.results (hW hw) }

theorem Uniform.of_frame (h : c.Uniform W n) (hd : d.frame = c.frame) : d.Uniform W n := by
  refine h.imp (fun h => ?_) fun h => h.of_frame hd
  rw [size, hd]
  exact ⟨h.1, fun i hi => by rw [InGroup, hd]; exact h.2 i hi⟩

theorem Uniform.mono {W' : Prop} {m : Nat} (hW : W' → W) (hm : m ≤ n) (h : c.Uniform W n) :
    c.Uniform W' m :=
  h.imp (fun h => ⟨Nat.le_trans hm h.1, h.2⟩) fun h => h.mono hW

theorem Bare.loose (h : c.Bare) (W : Prop) : c.Loose W :=
  ⟨h.not_inGroup, fun i label => h.state (f := (·.keys.get? label)) rfl i,
    fun _ i label => h.state (f := (·.windows.get? label)) rfl i⟩

theorem Grouped.uniform (h : c.Grouped) (W : Prop) : c.Uniform W 0 :=
  .inl ⟨Nat.zero_le _, h.inGroup⟩

/-- A group of all rows is the only one. -/
theorem uniform_collapse (W : Prop) (c : Context) : c.collapse.Uniform W 0 := by
  refine .inl ⟨Nat.zero_le _, fun i hi => ?_⟩
  have hsize := size_ne_zero_of_collapse hi
  obtain rfl := eq_zero_of_lt_size_collapse hi
  rw [InGroup, group_collapse hsize]
  rfl

/-- In alike rows the first one is in a group only if every other is. -/
theorem Uniform.inGroup (h : c.Uniform W n) (hi : i < c.size) : c.InGroup i ∨ ¬c.InGroup 0 :=
  h.imp (fun h => h.2 i hi) fun h => h.group 0

theorem state_take {α : Type} {f : RowState Frame → Option α} (hf : f {} = none) (g : Frame)
    (places : List Nat) (i : Nat) :
    ((g.take places).rows[i]?).bind f = (places[i]?).bind fun p => (g.rows[p]?).bind f := by
  rw [Frame.take, List.getElem?_toArray, List.getElem?_map, Option.bind_map]
  refine congrArg _ (funext fun p => ?_)
  cases hp : g.rows[p]? with
  | none => simp [hp, hf]
  | some r => simp [hp]

/-- Rows that are selected by answers are alike. -/
theorem Uniform.take (h : c.Uniform W n) {places : List Nat} (hp : ∀ p ∈ places, p < n)
    (hd : d.frame = c.frame.take places) : d.Uniform W 0 := by
  have hgroup := state_take (f := (·.group)) rfl c.frame places
  rcases h with ⟨hn, hall⟩ | h
  · refine .inl ⟨Nat.zero_le _, fun i hi => ?_⟩
    rw [size, hd, Frame.size_take] at hi
    have hlt : places[i] < c.size := Nat.lt_of_lt_of_le (hp _ (List.getElem_mem hi)) hn
    rw [InGroup, hd, hgroup, List.getElem?_eq_getElem hi]
    exact hall places[i] hlt
  · refine .inr ⟨fun i => ?_, fun i label => ?_, fun hw i label => ?_⟩
    · rw [InGroup, hd, hgroup]
      cases places[i]? with
      | none => exact Bool.false_ne_true
      | some p => exact h.group p
    · rw [hd, state_take (f := (·.keys.get? label)) rfl]
      cases places[i]? with
      | none => rfl
      | some p => exact h.keys p label
    · rw [hd, state_take (f := (·.windows.get? label)) rfl]
      cases places[i]? with
      | none => rfl
      | some p => exact h.results hw p label

/-- Notes about windows do not matter. -/
theorem Uniform.noted (h : c.Uniform False n) {new : Frame → Prop} {f : Frame}
    (hf : c.frame.Noted new f) (hd : d.frame = f) : d.Uniform False n := by
  have hgroup : ∀ i, d.InGroup i ↔ c.InGroup i := by
    intro i
    have hg := congrArg (Option.bind · id) (hf.group i)
    simp only [Option.bind_map, Function.id_comp] at hg
    rw [InGroup, InGroup, hd, hg]
  have hsize : d.size = c.size := by
    rw [size, hd]
    exact hf.size
  rcases h with ⟨hn, hall⟩ | h
  · exact .inl ⟨hsize ▸ hn, fun i hi => (hgroup i).mpr (hall i (hsize ▸ hi))⟩
  · refine .inr ⟨fun i => fun hi => h.group i ((hgroup i).mp hi), fun i label => ?_, False.elim⟩
    have hkeys := congrArg (Option.bind · (·.get? label)) (hf.keys i)
    simp only [Option.bind_map] at hkeys
    rw [hd]
    exact hkeys.trans (h.keys i label)

end Context

namespace Step

open Context

variable {engine : Engine} {W : Prop} {α : Type} {c : Context}

/-- What actions in one row after the other keep. The condition speaks of the row that is next. -/
theorem Ensures.rows_from {action : Nat → Step α} {J : Nat → Context → Prop}
    (h : ∀ i, Ensures (fun c => J i c ∧ i < c.size) (action i) fun _ => J (i + 1)) :
    Ensures (J 0) (Step.rows action) fun as => J as.size := by
  have hafter : ∀ (n : Nat) (done : Array α),
      Ensures (J done.size) (Step.rowsAfter action done n) fun as => J as.size := by
    intro n
    induction n with
    | zero => exact fun done => .pure done fun _ hc => hc
    | succ n ih =>
      intro done
      rw [Step.rowsAfter]
      refine .get_bind fun c hc => .ite (fun hlt => ?_) fun _ => ?_
      · refine ((h done.size).mono (fun d (hd : d = c) => hd ▸ ⟨hc, hlt⟩) fun _ _ h => h).bind ?_
        intro a
        have hrest := ih (done.push a)
        rwa [Array.size_push] at hrest
      · exact .pure done fun d (hd : d = c) => hd ▸ hc
  rw [Step.rows]
  exact .get_bind fun c hc => (hafter c.size #[]).mono (fun d (hd : d = c) => hd ▸ hc) fun _ _ h => h

/-- Whatever is evaluated, rows that are alike stay alike. -/
theorem steady_uniform (engine : Engine) (W : Prop) : Steady engine True (·.Uniform W 0) where
  note h := h.of_frame rfl
  remember {c} i label v h :=
    h.of_frame ((Touched.refl (fun _ => True) c).remember (i := i) trivial engine label v).frame
  groupOf _ i := by
    intro c g d hc he
    obtain ⟨-, -, rfl⟩ | ⟨-, -, rfl⟩ := groupOf_eq_ok he
    · exact hc.of_frame rfl
    · exact c.uniform_collapse W

/-- A look at one row that can be repeated. -/
structure Glance (engine : Engine) (W : Prop) (action : Nat → Step α) : Prop where
  steady : ∀ {I : Context → Prop}, Steady engine True I → ∀ i, Ensures I (action i) fun _ => I
  isLocal : ∃ free, Local free action
  repeats : Repeatable W false action

theorem glance_values (hengine : engine.remembers = false) {es : List Expr}
    (hes : ∀ e ∈ es, W ∨ e.WindowFree) :
    Glance engine W fun i => Evaluator.values engine (Expr.evaluators engine es) i false where
  steady S i := S.values (fun _ _ => .inl trivial) i false
  isLocal := ⟨_, local_values engine es false⟩
  repeats := repeatable_values hengine hes false

theorem glance_holds (hengine : engine.remembers = false) {e : Expr} (he : W ∨ e.WindowFree) :
    Glance engine W fun i => (e.evaluator engine).holds engine i where
  steady S i := S.holds (.inl trivial) i
  isLocal := ⟨_, local_holds engine e⟩
  repeats := repeatable_holds hengine he

theorem remember_of_forgetful (hengine : engine.remembers = false) (c : Context) (i : Nat)
    (label : String) (v : Value) : c.remember engine i label v = c := by
  rw [Context.remember, hengine]
  rfl

/-- Before row `i` of loose rows is looked at: columns have been noticed at most, and if none has the
first row has answered without a trace; or else the first row has become the group of all. -/
def AtRow (action : Nat → Step α) (c : Context) (i : Nat) (d : Context) : Prop :=
  (c.Glimpsed d ∧ (0 < i → d.sawPlainColumn = true ∨ ∃ a, action 0 c = .ok a c)) ∨
    (i = 1 ∧ d.size = 1 ∧ ∀ k < d.size, d.InGroup k)

/-- Loose rows stay as they are, or they become one group. -/
theorem steady_loose (hengine : engine.remembers = false) (hc : c.Loose W) (hsize : c.size ≠ 0) :
    Steady engine True fun d => c.Glimpsed d ∨ (d.size = 1 ∧ ∀ k < d.size, d.InGroup k) where
  note h := h.imp (fun h => h.note false) id
  remember i label v h := by rwa [remember_of_forgetful hengine]
  groupOf _ i := by
    have hcollapse : ∀ d : Context, d.size ≠ 0 →
        d.collapse.size = 1 ∧ ∀ k < d.collapse.size, d.collapse.InGroup k := by
      refine fun d hd => ⟨size_collapse hd, fun k hk => ?_⟩
      obtain rfl := eq_zero_of_lt_size_collapse hk
      rw [InGroup, group_collapse hd]
      rfl
    intro d g d' h he
    obtain ⟨hin, -, rfl⟩ | ⟨-, -, rfl⟩ := groupOf_eq_ok he
    · rcases h with hd | hd
      · exact absurd hin ((hc.of_frame (by rw [hd.same])).group i)
      · exact .inr hd
    · refine .inr (hcollapse d ?_)
      rcases h with hd | hd
      · rw [hd.same]
        exact hsize
      · rw [hd.1]
        exact Nat.one_ne_zero

/-- Once a column was read loose rows stay as they are. -/
theorem steady_seen (hengine : engine.remembers = false) (hc : c.Loose W) :
    Steady engine True fun d => c.Glimpsed d ∧ d.sawPlainColumn = true where
  note h := ⟨h.1.note false, rfl⟩
  remember i label v h := by rwa [remember_of_forgetful hengine]
  groupOf _ i := by
    intro d g d' h he
    obtain ⟨hin, -, -⟩ | ⟨hsaw, -, -⟩ := groupOf_eq_ok he
    · exact absurd hin ((hc.of_frame (by rw [h.1.same])).group i)
    · exact absurd (hsaw.symm.trans h.2) Bool.false_ne_true

theorem Glimpsed.eq_of_unseen {c d : Context} (h : c.Glimpsed d) (hd : d.sawPlainColumn = false) :
    d = c := by
  have hc : c.sawPlainColumn = false := by
    cases hsaw : c.sawPlainColumn with
    | false => rfl
    | true => exact absurd (hd.symm.trans (h.saw hsaw)) Bool.false_ne_true
  rw [h.same, hd, ← hc]

namespace Glance

variable {action : Nat → Step α} (G : Glance engine W action)
include G

/-- Loose rows answer one like the other until a column is read. -/
theorem atRow (hengine : engine.remembers = false) (hc : c.Loose W) (hsize : c.size ≠ 0)
    (hunseen : c.sawPlainColumn = false) (i : Nat) :
    Ensures (fun d => AtRow action c i d ∧ i < d.size) (action i)
      fun _ => AtRow action c (i + 1) := by
  rintro d a d' ⟨⟨hd, hfirst⟩ | ⟨rfl, hone, -⟩, hlt⟩ hs
  · by_cases hsaw : d.sawPlainColumn = true
    · have hd' := G.steady (steady_seen hengine hc) i ⟨hd, hsaw⟩ hs
      exact .inl ⟨hd'.1, fun _ => .inl hd'.2⟩
    -- no column was noticed, so nothing has changed since row 0 was looked at
    obtain rfl := Glimpsed.eq_of_unseen hd (Bool.not_eq_true _ ▸ hsaw)
    cases i with
    | zero =>
      rcases G.steady (steady_loose hengine hc hsize) 0 (.inl (.refl d)) hs with hd' | hd'
      · refine .inl ⟨hd', fun _ => ?_⟩
        by_cases hsaw' : d'.sawPlainColumn = true
        · exact .inl hsaw'
        · obtain rfl := Glimpsed.eq_of_unseen hd' (Bool.not_eq_true _ ▸ hsaw')
          exact .inr ⟨a, hs⟩
      · exact .inr ⟨rfl, hd'⟩
    | succ i =>
      obtain ⟨a₀, hfirst⟩ := (hfirst i.succ_pos).resolve_left hsaw
      have hvisit : Revisits W false 0 (i + 1) d d := by
        refine ⟨⟨Nat.pos_of_ne_zero hsize, fun label => ?_, fun hw label => ?_, fun g hg => ?_, rfl,
          id⟩, .inr (.inr ⟨rfl, hunseen⟩)⟩
        · rw [hc.keys, hc.keys]
        · rw [hc.results hw, hc.results hw]
        · exact absurd (by rw [InGroup, hg]; rfl) (hc.group 0)
      -- row `i + 1` answers like row 0 did, which left no trace, or it fails
      rcases G.repeats hfirst hvisit with ⟨p, hp, hglimpsed⟩ | ⟨p, hp⟩
      · cases hs.symm.trans hp
        exact .inl ⟨hglimpsed, fun _ => .inr ⟨_, hfirst⟩⟩
      · cases hs.symm.trans hp
  -- the group of all rows is the only row, so there is no row 1
  · omega

/-- Answers belong to rows: what loops over alike rows leaves is alike, with a row for each answer. -/
theorem uniform_rows [Inhabited α] (hengine : engine.remembers = false) :
    Ensures (fun c => c.Uniform W 0 ∧ c.sawPlainColumn = false) (rows action)
      fun as d => d.Uniform W as.size := by
  rintro c as d ⟨⟨-, hall⟩ | hc, hunseen⟩ hs
  · obtain ⟨free, hlocal⟩ := G.isLocal
    obtain ⟨htouched, -, g, -, rfl⟩ := hlocal.rows_of_ok (fun i hi => .inl (hall i hi)) hs
    refine Uniform.of_frame (c := c) (.inl ⟨?_, hall⟩) htouched.frame
    simp
  · by_cases hsize : c.size = 0
    · rw [rows, get_bind, hsize] at hs
      cases hs
      exact .inr hc
    have hstart : AtRow action c 0 c := .inl ⟨.refl c, fun h => absurd h (Nat.lt_irrefl 0)⟩
    rcases Ensures.rows_from (G.atRow hengine hc hsize hunseen) hstart hs with ⟨hd, -⟩ | ⟨h, hone, hd⟩
    · exact .inr (hc.of_frame (by rw [hd.same]))
    · exact .inl ⟨by rw [h, hone], hd⟩

end Glance

/-- Filters, windows and limits leave alike rows. Windows may not be read for keys of partitions. -/
theorem lasting_uniform (hengine : engine.remembers = false) :
    Lasting engine Expr.WindowFree (fun c => c.Uniform False 0 ∧ c.sawPlainColumn = false)
      (Uniform False) where
  operand := Expr.WindowFree.operand
  values hes := (glance_values hengine fun e he => .inr (hes e he)).uniform_rows hengine
  holds he := (glance_holds hengine (.inr he)).uniform_rows hengine
  filtered h hp := ⟨h.take hp rfl, rfl⟩
  sorted h hp := ⟨h.take hp rfl, rfl⟩
  partitioned h hf := ⟨(h.noted hf rfl).mono id (Nat.zero_le _), rfl⟩
  noted h hf := ⟨h.1.noted hf rfl, h.2⟩
  limited {c places} h hp := by
    refine ⟨?_, h.2⟩
    have hall : c.Uniform False c.size := h.1.imp_left fun h => ⟨Nat.le_refl _, h.2⟩
    exact hall.take hp rfl

/-- A condition leaves alike rows, whether results of windows matter or not. -/
theorem uniform_filter (hengine : engine.remembers = false) {e : Expr} (he : W ∨ e.WindowFree) :
    Ensures (fun c => c.Uniform W 0 ∧ c.sawPlainColumn = false) (filter engine e)
      fun _ c => c.Uniform W 0 ∧ c.sawPlainColumn = false := by
  rw [filter]
  refine ((glance_holds hengine he).uniform_rows hengine).bind fun truths => .modify _ fun c hc => ?_
  exact ⟨hc.take (fun p hp => lt_size_of_mem_truePlaces hp) rfl, rfl⟩

/-- Sorting leaves alike rows, even if an aggregate takes rows away in its course. -/
theorem uniform_sortRows (engine : Engine) (items : List OrderItem) :
    Ensures (·.Uniform W 0) (sortRows engine items) fun _ c => c.Uniform W 0 := by
  rw [sortRows]
  have hvalues : Ensures (·.Uniform W 0) (rows fun i =>
      Evaluator.values engine (Expr.evaluators engine (items.map OrderItem.expr)) i false)
      fun _ c => c.Uniform W 0 := .of_size fun n => (Ensures.rows (n := n) fun i =>
    (steady_uniform engine W).values (fun _ _ => .inl trivial) i false).mono
      (fun _ hc => ⟨hc.1, Nat.le_of_eq hc.2⟩) fun _ _ hd => hd.1
  refine hvalues.bind fun keys => .get_bind fun c hc => ?_
  refine Ensures.bind (Q := fun _ c => c.Uniform W 0) (.modify _ ?_) fun _ => .pure _ fun _ h => h
  rintro d rfl
  have hall : d.Uniform W d.size := hc.imp_left fun h => ⟨Nat.le_refl _, h.2⟩
  refine hall.take (fun p hp => ?_) rfl
  have hlt := lt_length_of_mem_sortKeys hp
  simp at hlt
  omega

end Step

end TableQuery
