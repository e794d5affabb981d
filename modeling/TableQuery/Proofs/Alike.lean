/-
Rows that may lack cells beside rows that hold Null there.

Views are alike if they have the same fields and every cell reads the same, whether a Null in it was
written or is missing. Frames are alike if their views are and everything else known about their rows
is the same, up to the frames of groups and partitions, which again are alike.

* `Frame.Alike`, `Context.Alike` — the relation, with a lemma for every way in which frames change;
* `Step.Alike` — steps that give related values from alike contexts and leave alike contexts, or fail
  with the same error, with a rule for each way in which steps are put together;
* `Step.alikeEvaluation` — evaluation is such a step.
-/
import Mathlib.Data.List.Forall2
import TableQuery.Context.Join
import TableQuery.Proofs.Alignment

namespace TableQuery

section Lists

variable {α β : Type} {R : α → β → Prop} {l : List α} {l' : List β}

/-- Related lists have related items in every place. -/
theorem forall₂_getElem? (h : List.Forall₂ R l l') (i : Nat) : Option.Rel R l[i]? l'[i]? := by
  induction h generalizing i with
  | nil => exact .none
  | cons h _ ih =>
    cases i with
    | zero => exact .some h
    | succ i => exact ih i

theorem forall₂_modify (h : List.Forall₂ R l l') {f : α → α} {g : β → β}
    (hfg : ∀ a b, R a b → R (f a) (g b)) (i : Nat) :
    List.Forall₂ R (l.modify i f) (l'.modify i g) := by
  induction h generalizing i with
  | nil => cases i <;> exact .nil
  | cons h htail ih =>
    cases i with
    | zero => exact .cons (hfg _ _ h) htail
    | succ i => exact .cons h (ih i)

theorem forall₂_map {γ : Type} (l : List γ) {f : γ → α} {g : γ → β} (h : ∀ x, R (f x) (g x)) :
    List.Forall₂ R (l.map f) (l.map g) :=
  List.rel_map (R := Eq) (fun x _ hxy => hxy ▸ h x) (List.forall₂_same.mpr fun _ _ => rfl)

theorem rel_bind {γ δ : Type} {S : γ → δ → Prop} {o : Option α} {o' : Option β}
    (h : Option.Rel R o o') {f : α → Option γ} {g : β → Option δ}
    (hfg : ∀ a b, R a b → Option.Rel S (f a) (g b)) : Option.Rel S (o.bind f) (o'.bind g) := by
  cases h with
  | some h => exact hfg _ _ h
  | none => exact .none

theorem bind_eq_of_rel {γ : Type} {o : Option α} {o' : Option β} (h : Option.Rel R o o')
    {f : α → Option γ} {g : β → Option γ} (hfg : ∀ a b, R a b → f a = g b) :
    o.bind f = o'.bind g := by
  cases h with
  | some h => exact hfg _ _ h
  | none => rfl

theorem rel_getD {o : Option α} {o' : Option β} (h : Option.Rel R o o') {a : α} {b : β}
    (hab : R a b) : R (o.getD a) (o'.getD b) := by
  cases h with
  | some h => exact h
  | none => exact hab

end Lists

/-! ### Views -/

/-- Rows with the same values, where a missing cell holds Null. -/
def Row.Alike (r s : Row) : Prop := ∀ f, (r.get? f).getD .null = (s.get? f).getD .null

/-- Views with the same fields, whose rows are alike. -/
structure View.Alike (v w : View) : Prop where
  fields : v.fields = w.fields
  rows : List.Forall₂ Row.Alike v.rows.toList w.rows.toList

namespace View.Alike

variable {v w : View}

theorem refl (v : View) : v.Alike v := ⟨rfl, List.forall₂_same.mpr fun _ _ _ => rfl⟩

theorem getElem? (h : v.Alike w) (i : Nat) : Option.Rel Row.Alike v.rows[i]? w.rows[i]? := by
  have hi := forall₂_getElem? h.rows i
  rwa [Array.getElem?_toList, Array.getElem?_toList] at hi

theorem size (h : v.Alike w) : v.size = w.size := h.rows.length_eq

theorem value (h : v.Alike w) (i : Nat) (f : String) : v.value i f = w.value i f := by
  have hi := h.getElem? i
  rw [View.value, View.value]
  generalize v.rows[i]? = o at hi ⊢
  generalize w.rows[i]? = o' at hi ⊢
  cases hi with
  | some hi => exact hi f
  | none => rfl

theorem declares (h : v.Alike w) (f : String) : v.declares f = w.declares f := by
  rw [View.declares, View.declares, h.fields]

theorem nullRow (h : v.Alike w) : v.nullRow = w.nullRow := by
  rw [View.nullRow, View.nullRow, h.fields]

theorem take (h : v.Alike w) (places : List Nat) : (v.take places).Alike (w.take places) := by
  refine ⟨h.fields, ?_⟩
  exact List.rel_filterMap (R := Eq) (fun i _ hij => hij ▸ h.getElem? i)
    (List.forall₂_same.mpr fun _ _ => rfl)

theorem paired (h : v.Alike w) (pairs : List RowPair) : (v.paired pairs).Alike (w.paired pairs) := by
  refine ⟨h.fields, ?_⟩
  rw [View.paired, View.paired, h.nullRow]
  refine forall₂_map pairs fun p => rel_getD ?_ fun _ => rfl
  cases p.2 with
  | none => exact .none
  | some j => exact h.getElem? j

end View.Alike

/-! ### Frames -/

/-- The same is known about two rows, up to the frames of their groups and partitions. -/
inductive RowState.Alike {F : Type} (R : F → F → Prop) : RowState F → RowState F → Prop
  | mk {g g' p p' : Option F} (windows keys : Labelled Value) :
    Option.Rel R g g' → Option.Rel R p p' →
      RowState.Alike R ⟨g, p, windows, keys⟩ ⟨g', p', windows, keys⟩

/-- Views that are alike, under the same aliases. -/
abbrev ViewsAlike : List (String × View) → List (String × View) → Prop :=
  List.Forall₂ fun x y => x.1 = y.1 ∧ x.2.Alike y.2

/-- Frames whose views are alike and about whose rows the same is known. -/
inductive Frame.Alike : Frame → Frame → Prop
  | mk {views views' : List (String × View)} {rows rows' : Array (RowState Frame)} :
    ViewsAlike views views' →
    List.Forall₂ (RowState.Alike Frame.Alike) rows.toList rows'.toList →
      Frame.Alike ⟨views, rows⟩ ⟨views', rows'⟩

namespace ViewsAlike

variable {views views' : List (String × View)}

theorem lookup (h : ViewsAlike views views') (table : String) :
    Option.Rel View.Alike (views.lookup table) (views'.lookup table) := by
  induction h with
  | nil => exact .none
  | @cons x y _ _ hxy _ ih =>
    obtain ⟨name, v⟩ := x
    obtain ⟨_, w⟩ := y
    obtain ⟨rfl, hvw⟩ := hxy
    rw [List.lookup_cons, List.lookup_cons]
    cases table == name with
    | true => exact .some hvw
    | false => exact ih

theorem map (h : ViewsAlike views views') {f g : String × View → String × View}
    (hfg : ∀ x y, x.1 = y.1 → x.2.Alike y.2 → (f x).1 = (g y).1 ∧ (f x).2.Alike (g y).2) :
    ViewsAlike (views.map f) (views'.map g) :=
  List.rel_map (fun x y hxy => hfg x y hxy.1 hxy.2) h

theorem flatMap {α : Type} (h : ViewsAlike views views') {f g : String × View → List α}
    (hfg : ∀ x y, x.1 = y.1 → x.2.Alike y.2 → f x = g y) :
    views.flatMap f = views'.flatMap g := by
  induction h with
  | nil => rfl
  | cons hxy _ ih => rw [List.flatMap_cons, List.flatMap_cons, hfg _ _ hxy.1 hxy.2, ih]

end ViewsAlike

namespace Frame.Alike

variable {f g : Frame}

theorem of (hviews : ViewsAlike f.views g.views)
    (hrows : List.Forall₂ (RowState.Alike Frame.Alike) f.rows.toList g.rows.toList) : f.Alike g := by
  cases f
  cases g
  exact .mk hviews hrows

theorem views (h : f.Alike g) : ViewsAlike f.views g.views := by
  cases h with
  | mk h _ => exact h

theorem rows (h : f.Alike g) :
    List.Forall₂ (RowState.Alike Frame.Alike) f.rows.toList g.rows.toList := by
  cases h with
  | mk _ h => exact h

theorem size (h : f.Alike g) : f.size = g.size := h.rows.length_eq

theorem getElem? (h : f.Alike g) (i : Nat) :
    Option.Rel (RowState.Alike Frame.Alike) f.rows[i]? g.rows[i]? := by
  have hi := forall₂_getElem? h.rows i
  rwa [Array.getElem?_toList, Array.getElem?_toList] at hi

theorem view? (h : f.Alike g) (table : String) :
    Option.Rel View.Alike (f.view? table) (g.view? table) := h.views.lookup table

theorem has_view? (h : f.Alike g) (table : String) :
    (g.view? table).isSome = (f.view? table).isSome := by
  have hview := h.view? table
  generalize f.view? table = v? at hview ⊢
  generalize g.view? table = w? at hview ⊢
  cases hview <;> rfl

theorem group? (h : f.Alike g) (i : Nat) :
    Option.Rel Frame.Alike ((f.rows[i]?).bind (·.group)) ((g.rows[i]?).bind (·.group)) :=
  rel_bind (h.getElem? i) fun r s hrs => by
    cases hrs with
    | mk windows keys hgroup _ => exact hgroup

theorem windows? (h : f.Alike g) (i : Nat) (label : String) :
    (f.rows[i]?).bind (·.windows.get? label) = (g.rows[i]?).bind (·.windows.get? label) :=
  bind_eq_of_rel (h.getElem? i) fun r s hrs => by
    cases hrs with
    | mk windows keys _ _ => rfl

theorem keys? (h : f.Alike g) (i : Nat) (label : String) :
    (f.rows[i]?).bind (·.keys.get? label) = (g.rows[i]?).bind (·.keys.get? label) :=
  bind_eq_of_rel (h.getElem? i) fun r s hrs => by
    cases hrs with
    | mk windows keys _ _ => rfl

theorem stateOf_new : RowState.Alike Frame.Alike {} {} := .mk _ _ .none .none

theorem ofSize (n : Nat) : (Frame.ofSize n).Alike (Frame.ofSize n) :=
  .of .nil (List.forall₂_same.mpr fun r hr => by
    have hr : r ∈ Array.replicate n ({} : RowState Frame) := Array.mem_toList_iff.mp hr
    rw [Array.eq_of_mem_replicate hr]
    exact stateOf_new)

theorem push (h : f.Alike g) (table : String) {v w : View} (hvw : v.Alike w) :
    (f.push table v).Alike (g.push table w) :=
  .of (List.rel_append h.views (.cons ⟨rfl, hvw⟩ .nil)) h.rows

theorem take (h : f.Alike g) (places : List Nat) : (f.take places).Alike (g.take places) := by
  refine .of (h.views.map fun x y hname hxy => ⟨hname, hxy.take places⟩) ?_
  exact forall₂_map places fun i => rel_getD (h.getElem? i) stateOf_new

theorem nullRow (h : f.Alike g) : f.nullRow.Alike g.nullRow := by
  refine .of (h.views.map fun x y hname hxy => ⟨hname, ?_⟩) (.cons stateOf_new .nil)
  refine ⟨hxy.fields, .cons ?_ .nil⟩
  rw [hxy.nullRow]
  exact fun _ => rfl

theorem modifyRow (h : f.Alike g) (i : Nat) {change change' : RowState Frame → RowState Frame}
    (hchange : ∀ r s, RowState.Alike Frame.Alike r s →
      RowState.Alike Frame.Alike (change r) (change' s)) :
    (f.modifyRow i change).Alike (g.modifyRow i change') := by
  refine .of h.views ?_
  rw [Frame.modifyRow, Frame.modifyRow, Array.toList_modify, Array.toList_modify]
  exact forall₂_modify h.rows hchange i

end Frame.Alike

/-! ### Contexts -/

/-- Contexts that are the same but for frames that are alike. -/
structure Context.Alike (c d : Context) : Prop where
  frame : c.frame.Alike d.frame
  emptyGroup : Option.Rel Frame.Alike c.emptyGroup d.emptyGroup
  same : d = { c with frame := d.frame, emptyGroup := d.emptyGroup }

namespace Context

variable {c d : Context}

theorem registerFields_frames (c : Context) (f : Frame) (g : Option Frame) (table : String)
    (fields : List String) :
    registerFields { c with frame := f, emptyGroup := g } table fields =
      { registerFields c table fields with frame := f, emptyGroup := g } := by
  rw [registerFields, registerFields]
  induction fields generalizing c with
  | nil => rfl
  | cons field fields ih =>
    have hfield : registerField table { c with frame := f, emptyGroup := g } field =
        { registerField table c field with frame := f, emptyGroup := g } := by
      rw [registerField, registerField]
      dsimp only
      split
      · rfl
      · split
        · split <;> rfl
        · rfl
    rw [List.foldl_cons, List.foldl_cons, hfield, ih]

namespace Alike

theorem size (h : c.Alike d) : c.size = d.size := h.frame.size

theorem memo (h : c.Alike d) : d.memo = c.memo := by rw [h.same]

theorem collapsed (h : c.Alike d) : d.collapsed = c.collapsed := by rw [h.same]

theorem sawPlainColumn (h : c.Alike d) : d.sawPlainColumn = c.sawPlainColumn := by rw [h.same]

theorem sourceEmpty (h : c.Alike d) : d.sourceEmpty = c.sourceEmpty := by rw [h.same]

theorem hasSource (h : c.Alike d) : d.hasSource = c.hasSource := by rw [h.same]

theorem resolve (h : c.Alike d) (field : String) : d.resolve field = c.resolve field := by
  rw [h.same]
  rfl

theorem knows (h : c.Alike d) (field : String) : d.knows field = c.knows field := by
  rw [h.same]
  rfl

theorem remembered? (h : c.Alike d) (engine : Engine) (i : Nat) (label : String) :
    c.remembered? engine i label = d.remembered? engine i label := by
  rw [Context.remembered?, Context.remembered?, h.frame.keys? i label, h.memo]

/-- Other frames that are alike take the place of the frames. -/
theorem withFrames {f g : Frame} {e e' : Option Frame} (h : c.Alike d) (hfg : f.Alike g)
    (he : Option.Rel Frame.Alike e e') :
    Context.Alike { c with frame := f, emptyGroup := e } { d with frame := g, emptyGroup := e' } :=
  ⟨hfg, he, by rw [h.same]⟩

theorem withFrame {f g : Frame} (h : c.Alike d) (hfg : f.Alike g) :
    Context.Alike { c with frame := f } { d with frame := g } :=
  h.withFrames hfg h.emptyGroup

theorem remember (h : c.Alike d) (engine : Engine) (i : Nat) (label : String) (x : Value) :
    (c.remember engine i label x).Alike (d.remember engine i label x) := by
  rw [Context.remember, Context.remember]
  split
  · refine ⟨h.frame, h.emptyGroup, ?_⟩
    rw [h.same]
  · exact h

theorem note (h : c.Alike d) (saw : Bool) :
    Context.Alike { c with sawPlainColumn := saw } { d with sawPlainColumn := saw } :=
  ⟨h.frame, h.emptyGroup, by rw [h.same]⟩

theorem replaceFrame {f g : Frame} (h : c.Alike d) (hfg : f.Alike g) :
    (c.replaceFrame f).Alike (d.replaceFrame g) := by
  refine ⟨hfg, h.emptyGroup, ?_⟩
  rw [Context.replaceFrame, Context.replaceFrame, ← hfg.size, h.same]

theorem registerFields (h : c.Alike d) (table : String) {v w : View} (hvw : v.Alike w) :
    (c.registerFields table v.fields).Alike (d.registerFields table w.fields) := by
  obtain ⟨direct, ambiguous, hc⟩ := c.registerFields_eq table v.fields
  have hd := registerFields_frames c d.frame d.emptyGroup table v.fields
  rw [← h.same, hvw.fields] at hd
  rw [hd, ← hvw.fields, hc]
  exact ⟨h.frame, h.emptyGroup, rfl⟩

theorem rebuildFields (h : c.Alike d) : c.rebuildFields.Alike d.rebuildFields := by
  have hfold : ∀ {views views' : List (String × View)}, ViewsAlike views views' →
      ∀ {c d : Context}, c.Alike d →
        (views.foldl (fun c x => c.registerFields x.1 x.2.fields) c).Alike
          (views'.foldl (fun c x => c.registerFields x.1 x.2.fields) d) := by
    intro views views' hviews
    induction hviews with
    | nil => exact fun h => h
    | @cons x y _ _ hxy _ ih =>
      intro c d h
      rw [List.foldl_cons, List.foldl_cons, ← hxy.1]
      exact ih (h.registerFields x.1 hxy.2)
  exact hfold h.frame.views ⟨h.frame, h.emptyGroup, by rw [h.same]⟩

theorem wholeGroup (h : c.Alike d) : c.wholeGroup.Alike d.wholeGroup := by
  rw [Context.wholeGroup, Context.wholeGroup, h.sourceEmpty]
  split
  · exact h.frame.take []
  · exact h.frame

theorem collapse (h : c.Alike d) : c.collapse.Alike d.collapse := by
  have hrows : List.Forall₂ (RowState.Alike Frame.Alike)
      ((c.frame.rows.extract 0 1).map fun r => { r with group := some c.wholeGroup }).toList
      ((d.frame.rows.extract 0 1).map fun r => { r with group := some d.wholeGroup }).toList := by
    simp only [Array.toList_map, Array.toList_extract]
    refine List.rel_map ?_ (List.forall₂_take _ (List.forall₂_drop _ h.frame.rows))
    intro r s hrs
    cases hrs with
    | mk windows keys _ hpartition => exact .mk windows keys (.some h.wholeGroup) hpartition
  refine Alike.rebuildFields ⟨.mk .nil hrows, h.emptyGroup, ?_⟩
  have hsize := hrows.length_eq
  simp only [Array.length_toList] at hsize
  simp only [Frame.size, hsize]
  rw [h.same]

theorem ofFrame {f g : Frame} (h : f.Alike g) : (Context.ofFrame f).Alike (Context.ofFrame g) := by
  refine Alike.rebuildFields ⟨h, .none, ?_⟩
  rw [h.size]

end Alike

end Context

/-! ### Steps -/

namespace Step

variable {α β γ δ : Type} {V : α → β → Prop} {W : γ → δ → Prop}

/-- The same error, or related values. -/
inductive AlikeResults (V : α → β → Prop) :
    Except ExecutionError α → Except ExecutionError β → Prop
  | ok {a : α} {b : β} : V a b → AlikeResults V (.ok a) (.ok b)
  | error (e : ExecutionError) : AlikeResults V (.error e) (.error e)

/-- The same error, or related values and contexts that are alike. -/
inductive AlikeOutcomes (V : α → β → Prop) : Outcome α → Outcome β → Prop
  | ok {a : α} {b : β} {c d : Context} : V a b → c.Alike d → AlikeOutcomes V (.ok a c) (.ok b d)
  | error (e : ExecutionError) {c d : Context} : AlikeOutcomes V (.error e c) (.error e d)

/-- Steps that come to alike outcomes from alike contexts. -/
def Alike (V : α → β → Prop) (s : Step α) (t : Step β) : Prop :=
  ∀ ⦃c d⦄, c.Alike d → AlikeOutcomes V (s c) (t d)

theorem AlikeResults.eq {r r' : Except ExecutionError α} (h : AlikeResults Eq r r') : r = r' := by
  cases h with
  | ok h => rw [h]
  | error e => rfl

namespace Alike

theorem pure {a : α} {b : β} (h : V a b) : Alike V (pure a) (pure b) := fun _ _ hcd => .ok h hcd

theorem throw (e : ExecutionError) : Alike V (throw e) (throw e) := fun _ _ _ => .error e

theorem throw_bind (e : ExecutionError) (f : α → Step γ) (g : β → Step δ) :
    Alike W (MonadExcept.throw e >>= f) (MonadExcept.throw e >>= g) := fun _ _ _ => .error e

theorem get : Alike Context.Alike get get := fun _ _ h => .ok h h

theorem set {c d : Context} (h : c.Alike d) : Alike Eq (set c) (set d) := fun _ _ _ => .ok rfl h

theorem modify {f g : Context → Context} (h : ∀ c d, c.Alike d → (f c).Alike (g d)) :
    Alike Eq (modify f) (modify g) := fun _ _ hcd => .ok rfl (h _ _ hcd)

theorem lift {r : Except ExecutionError α} {r' : Except ExecutionError β}
    (h : AlikeResults V r r') : Alike V (lift r) (lift r') := by
  cases h with
  | ok h => exact .pure h
  | error e => exact .throw e

theorem lift_same (r : Except ExecutionError α) : Alike Eq (Step.lift r) (Step.lift r) := by
  cases r with
  | ok a => exact .pure rfl
  | error e => exact .throw e

theorem bind {s : Step α} {t : Step β} {f : α → Step γ} {g : β → Step δ} (h : Alike V s t)
    (hfg : ∀ a b, V a b → Alike W (f a) (g b)) : Alike W (s >>= f) (t >>= g) := by
  intro c d hcd
  have hst := h hcd
  show AlikeOutcomes W (EStateM.bind s f c) (EStateM.bind t g d)
  rw [EStateM.bind, EStateM.bind]
  generalize s c = r at hst ⊢
  generalize t d = r' at hst ⊢
  cases hst with
  | ok hab h' => exact hfg _ _ hab h'
  | error e => exact .error e

/-- The rule for steps with the same values. -/
theorem bind_eq {s t : Step α} {f : α → Step γ} {g : α → Step δ} (h : Alike Eq s t)
    (hfg : ∀ a, Alike W (f a) (g a)) : Alike W (s >>= f) (t >>= g) :=
  .bind h fun a _ hab => hab ▸ hfg a

theorem discard {s : Step α} {t : Step β} (h : Alike V s t) :
    Alike Eq (discard s) (discard t) := .bind h fun _ _ _ => .pure rfl

theorem runIn {s : Step α} {t : Step β} (h : Alike V s t) {c d : Context} (hcd : c.Alike d) :
    AlikeResults V (s.runIn c) (t.runIn d) := by
  have hst := h hcd
  rw [Step.runIn, Step.runIn, EStateM.run, EStateM.run]
  generalize s c = r at hst ⊢
  generalize t d = r' at hst ⊢
  cases hst with
  | ok hab _ => exact .ok hab
  | error e => exact .error e

theorem mapM {f g : γ → Step α} {l : List γ} (h : ∀ x ∈ l, Alike Eq (f x) (g x)) :
    Alike Eq (l.mapM f) (l.mapM g) := by
  induction l with
  | nil => exact .pure rfl
  | cons x l ih =>
    rw [List.mapM_cons, List.mapM_cons]
    refine .bind_eq (h x List.mem_cons_self) fun a => ?_
    exact .bind_eq (ih fun y hy => h y (List.mem_cons_of_mem x hy)) fun as => .pure rfl

theorem forM {f : γ → Step PUnit} {g : δ → Step PUnit} {l : List γ} {l' : List δ}
    (hl : List.Forall₂ W l l') (h : ∀ x y, W x y → Alike Eq (f x) (g y)) :
    Alike Eq (l.forM f) (l'.forM g) := by
  induction hl with
  | nil => exact .pure rfl
  | cons hxy _ ih =>
    exact .bind_eq (h _ _ hxy) fun _ => ih

theorem rows {f g : Nat → Step α} (h : ∀ i, Alike Eq (f i) (g i)) :
    Alike Eq (rows f) (rows g) := by
  have hafter : ∀ (n : Nat) (done : Array α), Alike Eq (rowsAfter f done n) (rowsAfter g done n) := by
    intro n
    induction n with
    | zero => exact fun done => .pure rfl
    | succ n ih =>
      intro done
      rw [rowsAfter, rowsAfter]
      refine .bind .get fun c d hcd => ?_
      rw [hcd.size]
      split
      · exact .bind_eq (h _) fun a => ih _
      · exact .pure rfl
  refine .bind .get fun c d hcd => ?_
  rw [hcd.size]
  exact hafter _ #[]

end Alike

/-! ### Evaluation -/

theorem alike_readField (name : String) (i : Nat) (b : Bool) :
    Alike Eq (readField name i b) (readField name i b) := by
  intro c d h
  rw [readField_apply, readField_apply, h.resolve]
  cases c.resolve name with
  | error e => exact .error e
  | ok table =>
    refine .ok ?_ ?_
    · refine congrArg (Option.getD · Value.null) ?_
      rw [Option.map_eq_bind, Option.map_eq_bind]
      exact bind_eq_of_rel (h.frame.view? table) fun v w hvw => congrArg some (hvw.value i name)
    · split
      · exact h
      · exact h.note true

theorem alike_readQualified (table name : String) (i : Nat) (b : Bool) :
    Alike Eq (readQualified table name i b) (readQualified table name i b) := by
  intro c d h
  have hview := h.frame.view? table
  rw [readQualified_apply, readQualified_apply]
  generalize c.frame.view? table = v? at hview ⊢
  generalize d.frame.view? table = w? at hview ⊢
  cases hview with
  | none =>
    rw [h.collapsed]
    exact .error _
  | @some v w hvw =>
    simp only [hvw.declares name]
    split
    · refine .ok (hvw.value i name) ?_
      split
      · exact h
      · exact h.note true
    · exact .error _

theorem alike_readWindow (label : String) (i : Nat) :
    Alike Eq (readWindow label i) (readWindow label i) := by
  intro c d h
  rw [readWindow_apply, readWindow_apply, h.sourceEmpty, h.frame.windows? i label]
  split
  · exact .ok rfl h
  · split
    · exact .ok rfl h
    · exact .error _

theorem alike_groupOf (i : Nat) : Alike Frame.Alike (groupOf i) (groupOf i) := by
  intro c d h
  have hgroup := h.frame.group? i
  cases hc : (c.frame.rows[i]?).bind (·.group) with
  | some g =>
    cases hd : (d.frame.rows[i]?).bind (·.group) with
    | none => rw [hc, hd] at hgroup; cases hgroup
    | some g' =>
      rw [hc, hd] at hgroup
      cases hgroup with
      | some hgroup =>
      rw [groupOf_of_group hc, groupOf_of_group hd]
      exact .ok hgroup ⟨h.frame, h.emptyGroup, by rw [h.same]⟩
  | none =>
    have hd : (d.frame.rows[i]?).bind (·.group) = none := by
      rw [hc] at hgroup
      generalize (d.frame.rows[i]?).bind (·.group) = o at hgroup ⊢
      cases hgroup
      rfl
    cases hsaw : c.sawPlainColumn with
    | true =>
      rw [groupOf_of_sawPlainColumn hc hsaw, groupOf_of_sawPlainColumn hd (h.sawPlainColumn ▸ hsaw)]
      exact .error _
    | false =>
      rw [groupOf_of_none hc hsaw, groupOf_of_none hd (h.sawPlainColumn ▸ hsaw)]
      exact .ok h.wholeGroup h.collapse

theorem aggregateOver_of_alike {name : String}
    {h : Tuples → Bool → Option Quantifier → Except FunctionError Value}
    {f g : Nat → Step (List Value)} (hfg : ∀ i, Alike Eq (f i) (g i)) (q : Option Quantifier)
    {group group' : Frame} (hgroup : group.Alike group') :
    aggregateOver name h f q group = aggregateOver name h g q group' := by
  rw [aggregateOver, aggregateOver, ((Alike.rows hfg).runIn (.ofFrame hgroup)).eq, hgroup.size]

/-- Steps that are alike and have the same values. -/
def alike : StepRelation where
  rel := Alike Eq
  raises _ := True
  raises_of_isInternal _ := trivial
  pure _ := .pure rfl
  throw _ := .throw _
  bind := .bind_eq

theorem alike_value {engine : Engine} {v : Evaluator} {i : Nat} {b : Bool}
    (h : Alike Eq (v.compute i b) (v.compute i b)) :
    Alike Eq (v.value engine i b) (v.value engine i b) := by
  cases hlabel : v.label? with
  | none => rwa [Evaluator.value_of_label?_eq_none hlabel]
  | some label =>
    intro c d hcd
    cases hx : c.remembered? engine i label with
    | some x =>
      rw [Evaluator.value_of_remembered hlabel hx,
        Evaluator.value_of_remembered hlabel (hcd.remembered? engine i label ▸ hx)]
      exact .ok rfl hcd
    | none =>
      rw [Evaluator.value_of_not_remembered hlabel hx,
        Evaluator.value_of_not_remembered hlabel (hcd.remembered? engine i label ▸ hx)]
      have hst := h hcd
      generalize v.compute i b c = r at hst ⊢
      generalize v.compute i b d = r' at hst ⊢
      cases hst with
      | ok hab h' =>
        subst hab
        exact .ok rfl (h'.remember engine i label _)
      | error e => exact .error e

/-- Evaluation does not tell a missing cell from one that holds Null. -/
def alikeEvaluation (engine : Engine) : Simulation engine engine where
  Index := Nat × Bool
  row := Prod.fst
  otherRow := Prod.fst
  inAggregate := Prod.snd
  relation _ := alike
  admits _ := True
  operand _ _ := trivial
  readField x name := alike_readField name x.1 x.2
  readQualified x table name := alike_readQualified table name x.1 x.2
  readWindow x _ _ _ _ _ := alike_readWindow _ x.1
  call x e name q f g _ _ hfg := by
    refine alike.call rfl (fun _ _ _ _ _ => trivial) (fun _ _ => hfg x) fun h _ => ?_
    refine .bind (alike_groupOf x.1) fun group group' hgroup => ?_
    rw [aggregateOver_of_alike (fun i => hfg (i, true)) q hgroup]
    exact .lift_same _
  value x e _ h := alike_value h

variable (engine : Engine)

theorem alike_evaluator (e : Expr) (i : Nat) (b : Bool) :
    Alike Eq ((e.evaluator engine).value engine i b) ((e.evaluator engine).value engine i b) :=
  (alikeEvaluation engine).evaluate trivial (i, b)

theorem alike_values (es : List Expr) (i : Nat) (b : Bool) :
    Alike Eq (Evaluator.values engine (Expr.evaluators engine es) i b)
      (Evaluator.values engine (Expr.evaluators engine es) i b) :=
  (alikeEvaluation engine).values (fun _ _ => trivial) (i, b)

theorem alike_holds (e : Expr) (i : Nat) :
    Alike Eq ((e.evaluator engine).holds engine i) ((e.evaluator engine).holds engine i) :=
  (alikeEvaluation engine).holds trivial (x := (i, false)) rfl

end Step

end TableQuery
