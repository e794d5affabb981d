/-
Arguments of aggregates.

An aggregate is given its arguments in a context of its own, over the rows of its group. That is another
place than the row in which an expression is selected, and it is not noted there that columns are read. As
long as an expression calls no aggregate itself this makes no difference: where it has a value in the one
place it has the same value in the other, if all that is found in the one row is found in the other.

* `Context.Offers` — what is found in a row of one context is found in a row of another;
* `Step.runIn_evaluate_of_offers` — expressions without aggregates keep their values;
* `Context.offers_ofFrame`, `Context.Void.offers` — the rows of a context in a context of their own, and
  rows in which nothing is found.
-/
import TableQuery.Proofs.ImplicitGroup

namespace TableQuery

namespace Context

variable {engine : Engine} {c d : Context} {i j k : Nat}

/-- The cells, windows and keys that are found in row `i` of the first context are found in row `j` of the
second, and the same is remembered about both. -/
structure Offers (i j : Nat) (c d : Context) : Prop where
  field : ∀ {name table}, c.resolve name = .ok table →
    d.resolve name = .ok table ∧ d.cell ⟨table, name⟩ j = c.cell ⟨table, name⟩ i
  view : ∀ {table v}, c.frame.view? table = some v →
    ∃ w, d.frame.view? table = some w ∧ w.fields = v.fields ∧ ∀ name, w.value j name = v.value i name
  windows : ∀ {label v}, (c.frame.rows[i]?).bind (·.windows.get? label) = some v →
    (d.frame.rows[j]?).bind (·.windows.get? label) = some v
  keys : ∀ label, (d.frame.rows[j]?).bind (·.keys.get? label) =
    (c.frame.rows[i]?).bind (·.keys.get? label)
  sourceEmpty : d.sourceEmpty = c.sourceEmpty
  memo : d.memo[j]? = c.memo[i]?

namespace Offers

variable (o : c.Offers i j d)
include o

/-- Columns may be noted on both sides or on one. -/
theorem note (p q : Bool) :
    Offers i j (if p then c else { c with sawPlainColumn := true })
      (if q then d else { d with sawPlainColumn := true }) := by
  cases p <;> cases q <;> exact { o with }

theorem remembered? (engine : Engine) (label : String) :
    d.remembered? engine j label = c.remembered? engine i label := by
  rw [Context.remembered?, Context.remembered?, o.memo, o.keys]

theorem remember (engine : Engine) (label : String) (v : Value) :
    Offers i j (c.remember engine i label v) (d.remember engine j label v) := by
  rw [Context.remember, Context.remember]
  cases engine.remembers with
  | false => exact o
  | true =>
    refine { o with memo := ?_ }
    show (d.memo.modify j _)[j]? = (c.memo.modify i _)[i]?
    rw [Array.getElem?_modify, Array.getElem?_modify, if_pos rfl, if_pos rfl, o.memo]

end Offers

theorem sourceEmpty_ofFrame (f : Frame) : (ofFrame f).sourceEmpty = false :=
  congrArg (·.2.1) (marks_rebuildFields _)

/-- A row of a context offers the same in a context that has nothing but the rows. -/
theorem offers_ofFrame (hnamed : c.Named) (hempty : c.sourceEmpty = false) (hmemo : c.Forgotten)
    (hk : k < c.size) : c.Offers k k (ofFrame c.frame) := by
  have hframe := frame_ofFrame c.frame
  have hresolved : (ofFrame c.frame).Resolved := by
    have hown : (ofFrame c.frame).Named :=
      named_rebuildFields hnamed.nodup fun hsource => absurd hsource (by simp)
    exact hown.tracks.resolved hown.nodup
  have hsame := hnamed.tracks.resolved hnamed.nodup
  refine ⟨fun {name table} h => ⟨?_, ?_⟩, fun {table v} h => ⟨v, ?_, rfl, fun _ => rfl⟩, ?_, ?_, ?_, ?_⟩
  · rw [hresolved.ok, hframe]
    exact (hsame.ok name table).mp h
  · rw [cell, cell, hframe]
  · rw [hframe]
    exact h
  · rw [hframe]
    exact id
  · exact fun _ => by rw [hframe]
  · rw [sourceEmpty_ofFrame, hempty]
  · have hk' : k < (ofFrame c.frame).size := hk.trans_eq (size_ofFrame c.frame).symm
    rw [(forgotten_ofFrame c.frame).memo hk', hmemo.memo hk]

/-- A row without columns and windows offers nothing that is not found in any other row. -/
theorem Void.offers (hvoid : c.Void)
    (hwindows : ∀ label, (c.frame.rows[i]?).bind (·.windows.get? label) = none)
    (hkeys : ∀ label, (d.frame.rows[j]?).bind (·.keys.get? label) =
      (c.frame.rows[i]?).bind (·.keys.get? label))
    (hempty : d.sourceEmpty = c.sourceEmpty) (hmemo : d.memo[j]? = c.memo[i]?) :
    c.Offers i j d where
  field {name table} h := by
    rw [resolve, show c.direct = _ from hvoid.direct, show c.ambiguous = _ from hvoid.ambiguous] at h
    cases h
  view h := by
    rw [Frame.view?, hvoid.views] at h
    cases h
  windows {label v} h := by
    rw [hwindows] at h
    cases h
  keys := hkeys
  sourceEmpty := hempty
  memo := hmemo

end Context

namespace Step

open Context

variable {engine : Engine} {c d : Context} {e : Expr} {i j : Nat} {b b' : Bool} {x : Value}

/-- Steps of which the second gives what the first one gives, if it is offered what is found there. -/
def offered (i j : Nat) : StepRelation := .follows (fun _ => False) (Offers i j) fun _ => False

theorem offered_readField (name : String) : (offered i j).rel (readField name i b)
    (readField name j b') := by
  refine ⟨fun h => h.elim, fun {c d x c'} o h => .inr (.inl ?_)⟩
  rw [readField_apply] at h ⊢
  cases hr : c.resolve name with
  | error e =>
    rw [hr] at h
    cases h
  | ok table =>
    obtain ⟨hresolve, hcell⟩ := o.field hr
    rw [cell, cell] at hcell
    rw [hr] at h
    cases h
    rw [hresolve]
    exact ⟨_, by simp only [hcell], o.note b b'⟩

theorem offered_readQualified (table name : String) : (offered i j).rel (readQualified table name i b)
    (readQualified table name j b') := by
  refine ⟨fun h => h.elim, fun {c d x c'} o h => .inr (.inl ?_)⟩
  rw [readQualified_apply] at h ⊢
  cases hv : c.frame.view? table with
  | none =>
    rw [hv] at h
    cases h
  | some v =>
    obtain ⟨w, hw, hfields, hvalue⟩ := o.view hv
    rw [hv] at h
    rw [hw]
    dsimp only at h ⊢
    rw [View.declares, hfields, hvalue, ← View.declares]
    split at h
    · cases h
      rw [if_pos ‹_›]
      exact ⟨_, rfl, o.note b b'⟩
    · cases h

theorem offered_readWindow (label : String) :
    (offered i j).rel (readWindow label i) (readWindow label j) := by
  refine ⟨fun h => h.elim, fun {c d x c'} o h => .inr (.inl ?_)⟩
  rw [readWindow_apply] at h ⊢
  rw [o.sourceEmpty]
  split at h
  · cases h
    rw [if_pos ‹_›]
    exact ⟨d, rfl, o⟩
  · rw [if_neg ‹_›]
    cases hv : (c.frame.rows[i]?).bind (·.windows.get? label) with
    | none =>
      rw [hv] at h
      cases h
    | some v =>
      rw [hv] at h
      cases h
      rw [o.windows hv]
      exact ⟨d, rfl, o⟩

/-- Whether an expression without aggregates is evaluated for an aggregate or not, and in which row, makes
no difference as long as it is offered what it finds. -/
theorem offered_relates (he : e.AggregateFree engine.functions) :
    (offered i j).Relates engine engine i j b b' e := by
  induction e using Expr.operands_induction with
  | step e ih =>
  have hoperands := fun p hp => ih p hp (he.operand hp)
  have hnot : ¬e.IsAggregate engine.functions := by
    rintro ⟨name, hname, hagg⟩
    cases he with
    | intro hcallee _ =>
      rw [hcallee name hname] at hagg
      cases hagg
  have hcompute : (offered i j).rel ((e.evaluator engine).compute i b)
      ((e.evaluator engine).compute j b') := by
    cases e with
    | field name =>
      rw [Expr.evaluator]
      exact offered_readField name
    | qualified table name =>
      rw [Expr.evaluator]
      exact offered_readQualified table name
    | window f p o extent =>
      rw [Expr.evaluator]
      exact offered_readWindow _
    | call | callStar =>
      exact (offered i j).compute_call (fun _ => trivial) rfl (fun h => absurd h hnot) fun _ => hoperands
    | _ => exact (offered i j).compute rfl hoperands
  exact ⟨hcompute, Follows.value hcompute (fun _ _ h => h) (fun _ o => o.remembered? engine _)
    fun x _ o => o.remember engine _ x⟩

/-- An expression without aggregates has the same value in a row in which it is offered what it finds. -/
theorem runIn_evaluate_of_offers (o : c.Offers i j d) (he : e.AggregateFree engine.functions)
    (h : (evaluate engine e i b).runIn c = .ok x) : (evaluate engine e j b').runIn d = .ok x := by
  obtain ⟨c', hx⟩ := runIn_eq_ok.mp h
  obtain hlost | ⟨d', hd, -⟩ | ⟨_, _, _, herror⟩ := (offered_relates he).value.follows o hx
  · exact hlost.elim
  · exact runIn_eq_ok.mpr ⟨d', hd⟩
  · exact herror.elim

end Step

end TableQuery
