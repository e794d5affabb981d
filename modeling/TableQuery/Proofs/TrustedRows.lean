/-
Rows that can be trusted on the way to a result.

What is remembered about the rows of a query may come from three places: the keys of groups, what windows
were partitioned by, and keys of the order. All of this is remembered under labels, and keys of groups are
kept even when a filter forgets all else. As long as labels tell keys of the order apart from other
expressions, what is found under their labels is what they amount to, or else all columns are gone.

* `Context.Reliable` — rows that can be trusted, even if all is forgotten that can be;
* `Step.lasting_reliable`, `Step.reliable_filter` — operations on rows keep this;
* `Step.reliable_groupBy` — rows of groups can be trusted if what they were grouped by can.
-/
import TableQuery.Proofs.SortedRows

namespace TableQuery

/-! ### What is remembered about selected rows -/

namespace Context

variable {engine : Engine} {fields : List String} {order : List OrderItem} {c d : Context}

/-- About rows that are new only the keys of groups are remembered. -/
theorem remembered?_replaceFrame (c : Context) (f : Frame) (engine : Engine) (k : Nat) (label : String) :
    (c.replaceFrame f).remembered? engine k label = (f.rows[k]?).bind (·.keys.get? label) :=
  Forgotten.remembered? (c := c.replaceFrame f) rfl engine k label

theorem keys_take (f : Frame) (places : List Nat) (k : Nat) (label : String) :
    ((f.take places).rows[k]?).bind (·.keys.get? label) =
      (places[k]?).bind fun i => (f.rows[i]?).bind (·.keys.get? label) := by
  rw [Frame.take, List.getElem?_toArray, List.getElem?_map, Option.bind_map]
  cases places[k]? with
  | none => rfl
  | some i =>
    simp only [Option.bind_some, Function.comp_apply]
    cases f.rows[i]? <;> rfl

/-- What is remembered about a row goes where the row goes. -/
theorem remembered?_reorder (c : Context) (places : List Nat) (engine : Engine) (k : Nat) (label : String) :
    (c.reorder places).remembered? engine k label =
      (places[k]?).bind fun i => c.remembered? engine i label := by
  have hmemo : ((c.reorder places).memo[k]?).bind (·.get? label) =
      (places[k]?).bind fun i => (c.memo[i]?).bind (·.get? label) := by
    rw [reorder, List.getElem?_toArray, List.getElem?_map, Option.bind_map]
    cases places[k]? with
    | none => rfl
    | some i =>
      simp only [Option.bind_some, Function.comp_apply]
      cases c.memo[i]? <;> rfl
  have hkeys := keys_take c.frame places k label
  rw [remembered?, hmemo, show (c.reorder places).frame = c.frame.take places from rfl, hkeys]
  cases places[k]? with
  | none => cases engine.remembers <;> rfl
  | some i => rfl

/-- Selected rows have their cells, as far as there are rows at these places or no views at all. -/
theorem cells_take {f : Frame} (h : f.Aligned) {places : List Nat} (hfits : f.Fits places) {k i : Nat}
    (hk : places[k]? = some i) (table name : String) :
    ((f.take places).view? table).map (·.value k name) = (f.view? table).map (·.value i name) := by
  rcases hfits with hplaces | hnone
  · exact (Frame.SameRow.take h hplaces hk).cells table name
  · rw [Frame.view?_take, Frame.view?, hnone]
    rfl

namespace Trusted

/-- Rows that can be trusted can be trusted elsewhere. -/
theorem of_rows (h : c.Trusted engine fields order) (hdirect : d.direct = c.direct)
    (hrows : ∀ k, (∀ label, d.remembered? engine k label = none) ∨ ∃ i, (∀ o, d.cell o k = c.cell o i) ∧
      ∀ label, d.remembered? engine k label = c.remembered? engine i label) :
    d.Trusted engine fields order := by
  intro hfinds row k hshows r hpart hr x hx
  obtain hnone | ⟨i, hcell, hremembered⟩ := hrows k
  · rw [hnone] at hx
    cases hx
  · have hfinds' : c.Finds fields := fun name hname => hdirect ▸ hfinds name hname
    have hshows' : c.Shows fields row i := fun name hname => by
      obtain ⟨y, hy, hcells⟩ := hshows name hname
      exact ⟨y, hy, fun table htable => (hcell _).symm.trans (hcells table (hdirect ▸ htable))⟩
    exact h hfinds' row i hshows' r hpart hr x (hremembered _ ▸ hx)

/-- Where there are no columns there is nothing to be trusted. -/
theorem of_void (hsome : fields ≠ []) (h : c.Void) : c.Trusted engine fields order := by
  intro hfinds
  obtain ⟨name, hname⟩ := List.exists_mem_of_ne_nil fields hsome
  obtain ⟨table, htable⟩ := hfinds name hname
  exact absurd h (Step.not_void_of_direct htable)

/-- A look at rows that leaves what is remembered as it is. -/
theorem congr (h : c.Trusted engine fields order) (hdirect : d.direct = c.direct)
    (hcell : ∀ o i, d.cell o i = c.cell o i)
    (hremembered : ∀ i label, d.remembered? engine i label = c.remembered? engine i label) :
    d.Trusted engine fields order :=
  h.of_rows hdirect fun k => .inr ⟨k, fun o => hcell o k, hremembered k⟩

end Trusted

/-- Rows can be trusted, and they still can when all is forgotten that can be. -/
structure Reliable (engine : Engine) (fields : List String) (order : List OrderItem) (c : Context) :
    Prop where
  aligned : c.Aligned
  trusted : c.Trusted engine fields order
  kept : (c.replaceFrame c.frame).Trusted engine fields order

/-- Rows about which nothing is remembered can be trusted. -/
theorem Reliable.of_recalls (haligned : c.Aligned) (h : c.Recalls fun _ => False) :
    c.Reliable engine fields order where
  aligned := haligned
  trusted := .of_none fun i label => by
    by_contra hsome
    exact h.remembered? hsome
  kept := .of_none fun i label => by rw [remembered?_replaceFrame, h.keys]

/-- New rows can be trusted if what is kept about them can. -/
theorem Reliable.of_forgotten (haligned : c.Aligned) (hmemo : c.Forgotten)
    (h : c.Trusted engine fields order) : c.Reliable engine fields order := by
  have hsame : c.replaceFrame c.frame = c := by rw [replaceFrame, ← show c.memo = .replicate c.frame.size .empty from hmemo]
  exact ⟨haligned, h, by rwa [hsame]⟩

/-- Rows that a filter keeps. -/
theorem Reliable.filtered {places : List Nat} (haligned : c.Aligned) (hfits : c.frame.Fits places)
    (h : (c.replaceFrame c.frame).Trusted engine fields order) :
    Reliable engine fields order
      { c.replaceFrame (c.frame.take places) with sawPlainColumn := false } := by
  refine .of_forgotten ?_ rfl (h.of_rows rfl fun k => ?_)
  · exact ⟨haligned.frame.take hfits, (c.aligned_replaceFrame (haligned.frame.take hfits)).memo⟩
  · cases hk : places[k]? with
    | none =>
      refine .inl fun label => (remembered?_replaceFrame c _ engine k label).trans ?_
      rw [keys_take, hk]
      rfl
    | some i =>
      refine .inr ⟨i, fun o => congrArg (·.getD .null) (cells_take haligned.frame hfits hk _ _),
        fun label => (remembered?_replaceFrame c _ engine k label).trans ?_⟩
      rw [remembered?_replaceFrame, keys_take, hk]
      rfl

/-- Rows in another order. -/
theorem Reliable.reorder {places : List Nat} (hfits : c.frame.Fits places)
    (h : c.Reliable engine fields order) :
    Reliable engine fields order { c.reorder places with sawPlainColumn := false } := by
  have hrows : ∀ {d e : Context}, (∀ k i, places[k]? = some i → ∀ o, e.cell o k = d.cell o i) →
      (∀ k label, e.remembered? engine k label = (places[k]?).bind fun i =>
        d.remembered? engine i label) → ∀ k, (∀ label, e.remembered? engine k label = none) ∨
          ∃ i, (∀ o, e.cell o k = d.cell o i) ∧
            ∀ label, e.remembered? engine k label = d.remembered? engine i label := by
    intro d e hcell hremembered k
    cases hk : places[k]? with
    | none => exact .inl fun label => by rw [hremembered, hk]; rfl
    | some i => exact .inr ⟨i, hcell k i hk, fun label => by rw [hremembered, hk]; rfl⟩
  have hcell : ∀ k i, places[k]? = some i → ∀ o : FieldOwner,
      (((c.frame.take places).view? o.table).map (·.value k o.name)).getD .null = c.cell o i :=
    fun k i hk o => congrArg (·.getD .null) (cells_take h.aligned.frame hfits hk _ _)
  refine ⟨⟨(h.aligned.reorder hfits).frame, (h.aligned.reorder hfits).memo⟩, ?_, ?_⟩
  · exact h.trusted.of_rows rfl (hrows hcell fun k label => c.remembered?_reorder places engine k label)
  · refine h.kept.of_rows rfl (hrows hcell fun k label => ?_)
    refine (remembered?_replaceFrame _ _ engine k label).trans ((keys_take c.frame places k label).trans ?_)
    simp only [remembered?_replaceFrame]

/-- Rows about which something was noted for windows. -/
theorem Reliable.noted {new : Frame → Prop} {f : Frame} (hf : c.frame.Noted new f)
    (h : c.Reliable engine fields order) : Reliable engine fields order { c with frame := f } := by
  have hkeys : ∀ (i : Nat) label, (f.rows[i]?).bind (·.keys.get? label) =
      (c.frame.rows[i]?).bind (·.keys.get? label) := by
    intro i label
    have hkeys := congrArg (Option.bind · (·.get? label)) (hf.keys i)
    simp only [Option.bind_map] at hkeys
    exact hkeys
  have hcell : ∀ (o : FieldOwner) i, ((f.view? o.table).map (·.value i o.name)).getD .null =
      c.cell o i := by
    intro o i
    rw [Frame.view?, hf.views]
    rfl
  refine ⟨h.aligned.noted hf, h.trusted.congr rfl hcell fun i label => ?_,
    h.kept.congr rfl hcell fun i label => ?_⟩
  · rw [remembered?, remembered?, hkeys]
  · rw [remembered?_replaceFrame, remembered?_replaceFrame, hkeys]

end Context

namespace Step

open Context

variable {engine : Engine} {fields : List String} {exprs es keys : List Expr} {order : List OrderItem}
  {c d : Context}

/-! ### Operations on rows -/

/-- Rows can still be trusted after a look at one of them. -/
theorem trusted_values (ho : SelectedOrder engine fields exprs order) (hsome : fields ≠ [])
    (hes : ∀ e ∈ es, e.Clear (Expr.KeyPart order)) (i : Nat) :
    Ensures (Trusted engine fields order)
      (Evaluator.values engine (Expr.evaluators engine es) i false)
      fun _ => Trusted engine fields order := by
  intro c xs d hc h
  obtain hvoid | ⟨t, -⟩ := (alone_values engine es).follows (.refl i c) h
  · exact .of_void hsome hvoid
  intro hfinds row k hshows
  have hshows' : c.Shows fields row k := hshows.congr t.frame.symm t.direct.symm
  have hvouches := hc (fun name hname => t.direct ▸ hfinds name hname) row k hshows'
  by_cases hk : k = i
  · subst hk
    obtain hvoid | ⟨-, hvouches⟩ := vouches_values ho.family ho.over_part hes hshows' hvouches h
    · exact Trusted.of_void hsome hvoid hfinds row k hshows
    · exact hvouches
  · -- nothing has become known about other rows
    intro r hpart hr x hx
    exact hvouches r hpart hr x (((t.sameRow hk).remembered? engine r.label).trans hx)

theorem trusted_holds (ho : SelectedOrder engine fields exprs order) (hsome : fields ≠ []) {e : Expr}
    (he : e.Clear (Expr.KeyPart order)) (i : Nat) :
    Ensures (Trusted engine fields order) ((e.evaluator engine).holds engine i)
      fun _ => Trusted engine fields order := by
  have hvalue : Ensures (Trusted engine fields order) ((e.evaluator engine).value engine i false)
      fun _ => Trusted engine fields order := by
    intro c x d hc h
    have hone : Evaluator.values engine (Expr.evaluators engine [e]) i false c = .ok [x] d := by
      rw [values_singleton, bind_of_ok h]
      rfl
    exact trusted_values ho hsome (fun e' he' => List.mem_singleton.mp he' ▸ he) i hc hone
  rw [Evaluator.holds]
  exact hvalue.bind fun _ => .pure _ fun _ h => h

/-- No look at a row changes what is kept about rows. -/
theorem steady_trusted_kept (engine : Engine) (hsome : fields ≠ []) :
    Steady engine True fun c => (c.replaceFrame c.frame).Trusted engine fields order where
  note h := h
  remember {c} i label v h := by
    have t := (Touched.refl (fun _ => True) c).remember (i := i) trivial engine label v
    refine h.congr t.direct (fun o k => ?_) fun k l => ?_
    · rw [cell, cell, show ((c.remember engine i label v).replaceFrame _).frame = c.frame from t.frame]
      rfl
    · rw [remembered?_replaceFrame, remembered?_replaceFrame, t.frame]
  groupOf _ i := by
    intro c g d hc he
    obtain ⟨-, -, rfl⟩ | ⟨-, -, rfl⟩ := groupOf_eq_ok he
    · exact hc
    · have hvoid := c.void_collapse
      exact .of_void hsome ⟨hvoid.views, hvoid.direct, hvoid.ambiguous⟩

/-- Operations on rows leave rows that can be trusted, if labels tell keys apart from what is evaluated. -/
theorem lasting_reliable (ho : SelectedOrder engine fields exprs order) (hsome : fields ≠ []) :
    Lasting engine (Expr.Clear (Expr.KeyPart order)) (Reliable engine fields order)
      fun n c => (∃ size, c.Intact size ∧ n ≤ size) ∧ c.Reliable engine fields order where
  operand h hp := h.operand hp
  values {es} hes c as d hc h := by
    obtain ⟨size, hd, hle⟩ := (lasting_aligned engine).values (fun _ _ => trivial) hc.aligned h
    refine ⟨⟨size, hd, hle⟩, hd.1, ?_, ?_⟩
    · exact (Ensures.rows (fun i => trusted_values ho hsome hes i) ⟨hc.trusted, Nat.le_refl _⟩ h).1
    · exact (Ensures.rows (fun i => (steady_trusted_kept engine hsome).values
        (fun _ _ => .inl trivial) i false) ⟨hc.kept, Nat.le_refl _⟩ h).1
  holds {e} he c as d hc h := by
    obtain ⟨size, hd, hle⟩ := (lasting_aligned engine).holds trivial hc.aligned h
    refine ⟨⟨size, hd, hle⟩, hd.1, ?_, ?_⟩
    · exact (Ensures.rows (fun i => trusted_holds ho hsome he i) ⟨hc.trusted, Nat.le_refl _⟩ h).1
    · exact (Ensures.rows (fun i => (steady_trusted_kept engine hsome).holds (.inl trivial) i)
        ⟨hc.kept, Nat.le_refl _⟩ h).1
  filtered h hp := by
    obtain ⟨⟨size, hc, hle⟩, hreliable⟩ := h
    exact .filtered hc.1 (hc.fits fun p hmem => (hp p hmem).trans_le hle) hreliable.kept
  sorted h hp := by
    obtain ⟨⟨size, hc, hle⟩, hreliable⟩ := h
    exact hreliable.reorder (hc.fits fun p hmem => (hp p hmem).trans_le hle)
  partitioned h hf := by
    have hnoted := h.2.noted hf
    exact ⟨⟨hnoted.aligned.frame, hnoted.aligned.memo⟩, hnoted.trusted, hnoted.kept⟩
  noted h hf := h.noted hf
  limited h hp := by
    have hreorder := h.reorder (.inl hp)
    exact ⟨⟨hreorder.aligned.frame, hreorder.aligned.memo⟩, hreorder.trusted, hreorder.kept⟩

/-- A filter may look at anything, since what it has found out is forgotten. -/
theorem reliable_filter (hsome : fields ≠ []) (e : Expr) :
    Ensures (Reliable engine fields order) (filter engine e) fun _ => Reliable engine fields order := by
  rw [filter]
  refine Ensures.bind (Q := fun truths c => (∃ size, c.Intact size ∧ truths.size ≤ size) ∧
    (c.replaceFrame c.frame).Trusted engine fields order) ?_ fun truths => .modify _ ?_
  · intro c truths d hc h
    exact ⟨(lasting_aligned engine).holds trivial hc.aligned h, (Ensures.rows (fun i =>
      (steady_trusted_kept engine hsome).holds (.inl trivial) i) ⟨hc.kept, Nat.le_refl _⟩ h).1⟩
  · rintro c ⟨⟨size, hc, hle⟩, hkept⟩
    exact .filtered hc.1 (hc.fits fun p hmem => (lt_size_of_mem_truePlaces hmem).trans_le hle) hkept

/-! ### Groups -/

/-- Grouping leaves no columns if there were none. -/
theorem void_collapseTo (h : c.Void) (columns : List KeyColumn) (buckets : List Bucket)
    (groups : List Group) : (c.collapseTo columns buckets groups).Void := by
  rw [Context.collapseTo, h.views]
  exact ⟨rfl, rfl, rfl⟩

/-- The row of a group shows cells of a row from which it has its key. -/
theorem shows_of_collapseTo {columns : List KeyColumn} {buckets : List Bucket} {groups : List Group}
    {b : Bucket} {g i : Nat} {e : Context} {row : Row} {rows : Nat → Prop} (hc : c.Named)
    (t : c.Touched rows d) (hnot : ¬e.Void)
    (hkey : Evaluator.values engine (Expr.evaluators engine keys) i false c = .ok b.key e)
    (hcolumns : keys.mapM d.keyColumn = .ok columns) (hb : buckets[g]? = some b)
    (hfinds : (d.collapseTo columns buckets groups).Finds fields)
    (hshows : (d.collapseTo columns buckets groups).Shows fields row g) : c.Shows fields row i := by
  have hresolved := hc.tracks.resolved hc.nodup
  have hgroups := named_collapseTo (t.named hc) columns buckets groups
  have hgroups := hgroups.tracks.resolved hgroups.nodup
  intro name hname
  obtain ⟨x, hx, hcell⟩ := hshows name hname
  obtain ⟨owner, howner⟩ := hfinds name hname
  refine ⟨x, hx, fun table htable => ?_⟩
  -- the column is left of the view that it belongs to, as the value of one of the keys
  obtain ⟨w, hw, hdeclares⟩ := hgroups.exists_view (((hgroups.direct name owner).mp howner owner).mpr rfl)
  have hcellw : w.value g name = x := by
    rw [← hcell owner howner, cell, hw]
    rfl
  rw [view?_collapseTo] at hw
  obtain ⟨-, -, rfl⟩ := Option.map_eq_some_iff.mp hw
  obtain ⟨position, hposition, hvalue⟩ := exists_key_of_declares hdeclares hb
  obtain ⟨key, hk, hcolumn⟩ := exists_of_keyColumns hcolumns hposition
  obtain ⟨y, c', c'', hy, t', hyvalue⟩ := exists_touched_of_values hkey hnot hk
  have hnamed := t'.named hc
  rw [keyColumn_of_touched t, ← keyColumn_of_touched t'] at hcolumn
  obtain ⟨-, hdeclared, rfl⟩ := declares_of_keyColumn (hnamed.tracks.resolved hnamed.nodup) hcolumn
    (runIn_eq_ok.mpr ⟨c'', hyvalue⟩)
  obtain rfl : owner = table :=
    ((hresolved.direct name table).mp htable owner).mp (t'.frame ▸ hdeclared)
  rw [← hcellw, hvalue, hy, Option.getD_some, cell, cell, t'.frame]

/-- Rows of groups can be trusted, if what is kept about them under the label of a part of a key is the value
of the part. -/
theorem reliable_groupBy (ho : SelectedOrder engine fields exprs order) (hsome : fields ≠ [])
    (hkeys : ∀ k ∈ keys, k.Clear (Expr.KeyPart order))
    (hsame : ∀ k ∈ keys, (∀ name, k.body ≠ .field name) → (∀ table name, k.body ≠ .qualified table name) →
      ∀ r, Expr.KeyPart order r → r.isRemembered = true → k.label = r.label → k = r) :
    Ensures (fun c => c.Aligned ∧ c.Named ∧ c.Recalls fun _ => False) (groupBy engine keys)
      fun _ => Reliable engine fields order := by
  rintro c groups d ⟨haligned, hnamed, hnone⟩ h
  have haligned' := aligned_groupBy keys haligned h
  obtain ⟨found, columns, c', hbuckets, rfl, hcolumns, rfl⟩ := exists_buckets_of_groupBy h
  refine .of_forgotten haligned' (forgotten_collapseTo c' _ _ _) ?_
  obtain ⟨values, hrows, rfl⟩ := exists_rows_of_buckets hbuckets
  by_cases hvoid : c'.Void
  · exact .of_void hsome ((void_collapseTo hvoid _ _ _).note false)
  obtain ⟨t, -, hvalues⟩ := ((alone_values engine keys).of_rows hrows).resolve_left hvoid
  rintro hfinds row g hshows r hpart hr x hx
  obtain ⟨b, position, hb, hposition, hkept⟩ := exists_key_of_remembered? hx
  obtain ⟨i, hi⟩ := List.mem_iff_getElem?.mp
    ((Bucket.hold_ofKeys values.toList).key b (List.mem_of_getElem? hb))
  obtain ⟨e, hkey, te⟩ := hvalues i b.key (by simpa using hi)
  have hnot : ¬e.Void := fun h =>
    hvoid ⟨(congrArg Frame.views (t.frame.trans te.frame.symm)).trans h.views,
      (t.direct.trans te.direct.symm).trans h.direct, (t.ambiguous.trans te.ambiguous.symm).trans h.ambiguous⟩
  -- the key under the label is the part itself, and its value is that of a member of the group
  obtain ⟨key, hk, hcolumn⟩ := exists_of_keyColumns hcolumns hposition
  obtain ⟨hlabel, hfield, hqualified⟩ := label_of_keyColumn hcolumn
  obtain rfl := hsame key (List.mem_of_getElem? hk) hfield hqualified r hpart hr hlabel
  have hshows' := shows_of_collapseTo hnamed t hnot hkey hcolumns hb hfinds hshows
  have hvouches : c.Vouches engine (Expr.KeyPart order) row i := by
    intro r' _ _ y hy
    exact (hnone.remembered? (by rw [hy]; exact Option.some_ne_none y)).elim
  obtain ⟨y, e₁, e₂, hy, te₁, hvouches₁, hvalue⟩ := exists_of_values ho.family ho.over_part hkeys hshows'
    hvouches hkey hnot hk
  obtain rfl : y = x := Option.some.inj (hy.symm.trans hkept)
  exact (Expr.Over.of_value ho.family (ho.over_part key hpart) hpart (hshows'.touched te₁) hvouches₁
    hvalue).1

/-- When rows are prepared they can be trusted. -/
theorem reliable_prepare {clauses : Clauses} (ho : SelectedOrder engine fields exprs order)
    (hsome : fields ≠ []) (hkeys : ∀ k ∈ clauses.groupBy, k.Clear (Expr.KeyPart order))
    (hsame : ∀ k ∈ clauses.groupBy, (∀ name, k.body ≠ .field name) →
      (∀ table name, k.body ≠ .qualified table name) →
      ∀ r, Expr.KeyPart order r → r.isRemembered = true → k.label = r.label → k = r) :
    Ensures (fun c => c.Loaded ∧ c.Bare ∧ (clauses.groupBy ≠ [] → c.Named)) (prepare engine clauses)
      fun _ => Reliable engine fields order := by
  let I (c : Context) : Prop :=
    c.Loaded ∧ c.Recalls (fun _ => False) ∧ (clauses.groupBy ≠ [] → c.Named)
  have hfilter : ∀ e, Ensures I (filter engine e) fun _ => I := by
    rintro e c a d ⟨hloaded, hrecalls, hnamed⟩ h
    have hloaded' := loaded_filter e hloaded h
    have hkept := (lasting_recalls engine fun _ => True).filter (fun _ _ _ => trivial)
      ⟨fun _ _ _ => trivial, hrecalls.keys⟩ h
    exact ⟨hloaded', .of_forgotten hloaded'.forgotten hkept.keys,
      fun hgroups => (lasting_named engine).filter (.inl trivial) (hnamed hgroups) h⟩
  have hfirst : Ensures (fun c => c.Loaded ∧ c.Bare ∧ (clauses.groupBy ≠ [] → c.Named))
      (clauses.condition.forM (filter engine)) fun _ => I := by
    refine (Ensures.forM_option _ fun e _ => hfilter e).mono (fun c hc => ?_) fun _ _ h => h
    exact ⟨hc.1, .of_forgotten hc.1.forgotten fun i label => hc.2.1.state rfl i, hc.2.2⟩
  have hlast : Ensures (Reliable engine fields order) (clauses.having.forM (filter engine))
      fun _ => Reliable engine fields order :=
    .forM_option _ fun e _ => reliable_filter hsome e
  rw [prepare]
  refine hfirst.bind fun _ => .ite (fun hgroups => ?_) fun _ => ?_
  · have hgroups : clauses.groupBy ≠ [] := by simpa using hgroups
    exact ((reliable_groupBy ho hsome hkeys hsame).mono
      (fun c hc => ⟨hc.1.aligned, hc.2.2 hgroups, hc.2.1⟩) fun _ _ h => h).discard.bind fun _ => hlast
  · exact hlast.mono (fun c hc => .of_recalls hc.1.aligned hc.2.1) fun _ _ h => h

/-- Rows from a source stay such rows. -/
theorem steady_hasSource (engine : Engine) : Steady engine True (·.hasSource = true) where
  note h := h
  remember {c} i label v h := by
    have t := (Touched.refl (fun _ => True) c).remember (i := i) trivial engine label v
    exact t.hasSource.trans h
  groupOf _ i := by
    intro c g d hc he
    obtain ⟨-, -, rfl⟩ | ⟨-, -, rfl⟩ := groupOf_eq_ok he
    · exact hc
    · exact (hasSource_rebuildFields _).trans hc

end Step

/-- The fields of a source are resolved as its views declare them, if no join turns all rows into one group. -/
theorem Statement.named_loadSource (engine : Engine) (tables : Tables) (source : Source)
    (h : ∀ on ∈ source.conditions, on.AggregateFree engine.functions) :
    Step.Ensures (· = {}) (loadSource engine tables source)
      fun _ c => c.Named ∧ c.hasSource = true := by
  induction source using Source.left_induction with
  | nothing =>
    rw [loadSource]
    refine Step.Ensures.bind (Q := fun _ c => c.Named ∧ c.hasSource = true) ?_ fun _ =>
      .pure _ fun _ h => h
    rintro c a d rfl he
    exact ⟨Step.named_singleRow Context.named_empty he, by cases he; rfl⟩
  | factor f =>
    rw [loadSource]
    refine (Step.Ensures.lift (Q := fun _ c => c = {}) _ fun c _ hc _ => hc).bind fun v => ?_
    refine Step.Ensures.bind (Q := fun _ c => c.Named ∧ c.hasSource = true) ?_ fun _ =>
      .pure _ fun _ h => h
    rintro c a d rfl he
    refine ⟨Step.named_addView f.name v Context.named_empty he, ?_⟩
    rw [Step.addView_new] at he
    cases he
    exact Context.hasSource_registerFields _ _ _
  | leftJoin left right on ih =>
    rw [loadSource]
    refine (ih fun e he => h e (List.mem_append_left _ he)).bind fun aliases => ?_
    refine (Step.Ensures.lift (Q := fun _ c => c.Named ∧ c.hasSource = true) _
      fun c _ hc _ => hc).bind fun v => ?_
    rintro c a d ⟨hnamed, hsource⟩ he
    have hfree := h on (List.mem_append_right _ (by simp))
    refine ⟨Step.named_leftJoin hnamed hsource (fun _ _ => .inr hfree) he, ?_⟩
    exact ((Step.steady_hasSource engine).leftJoin (fun _ _ h => h)
      (fun table fields h => (Context.hasSource_registerFields _ table fields).trans h) (fun h => h)
      aliases right.name v (.inl trivial) hsource he).1

end TableQuery
