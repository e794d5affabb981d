/-
The tables by which fields are resolved.

A context does not look through its views when a field is read, but keeps tables of their fields beside
them. Views that are added or joined are entered in the tables, and the tables are made anew where rows are
grouped, by keys or by an aggregate. So the tables are right for the views after any sequence of operations;
but the condition of a join must not turn all rows into one group, since a join puts the views back
afterwards and not the tables, and rows must come from a source before a view is joined to them.

* `ownersOf` — the aliases under which a field is declared, in order;
* `Context.Tracks.registerFields`, `Context.tracks_rebuildFields` — what the tables say of every field;
* `Context.Named` — the tables are right for the views, which all operations keep
  (`Step.lasting_named`, `Step.named_addView`, `Step.named_groupBy`, `Step.named_leftJoin`);
* `Operation.resolved_runAll` — after any sequence of operations fields are resolved by the views.
-/
import Mathlib.Data.List.Sort
import Mathlib.Data.String.Basic
import TableQuery.Proofs.Nesting
import TableQuery.Proofs.Sources

namespace TableQuery

/-! ### The owners of a field -/

namespace Context

variable {owner : String} {owners : List String}

theorem mem_addOwner {t : String} : t ∈ addOwner owner owners ↔ t = owner ∨ t ∈ owners := by
  induction owners with
  | nil => simp [addOwner]
  | cons o owners ih =>
    rw [addOwner]
    split
    · next h => simp [h]
    · split
      · simp
      · rw [List.mem_cons, ih, List.mem_cons]
        exact or_left_comm

/-- Owners stay in order. -/
theorem pairwise_addOwner (h : owners.Pairwise (· < ·)) :
    (addOwner owner owners).Pairwise (· < ·) := by
  induction owners with
  | nil => exact List.pairwise_singleton _ _
  | cons o owners ih =>
    obtain ⟨hfirst, hrest⟩ := List.pairwise_cons.mp h
    rw [addOwner]
    split
    · exact h
    · next hne =>
      split
      · next hlt =>
        refine List.pairwise_cons.mpr ⟨fun t ht => ?_, h⟩
        rcases List.mem_cons.mp ht with rfl | ht
        · exact hlt
        · exact hlt.trans (hfirst t ht)
      · next hge =>
        refine List.pairwise_cons.mpr ⟨fun t ht => ?_, ih hrest⟩
        rcases mem_addOwner.mp ht with rfl | ht
        · exact lt_of_le_of_ne (not_lt.mp hge) (Ne.symm hne)
        · exact hfirst t ht

theorem addOwner_addOwner (owner : String) (owners : List String) :
    addOwner owner (addOwner owner owners) = addOwner owner owners := by
  induction owners with
  | nil => simp [addOwner]
  | cons o owners ih =>
    rw [addOwner]
    split
    · next h => rw [addOwner, if_pos h]
    · next hne =>
      split
      · rw [addOwner, if_pos rfl]
      · next hge => rw [addOwner, if_neg hne, if_neg hge, ih]

theorem length_le_length_addOwner (owner : String) (owners : List String) :
    owners.length ≤ (addOwner owner owners).length := by
  induction owners with
  | nil => exact Nat.zero_le _
  | cons o owners ih =>
    rw [addOwner]
    split
    · exact Nat.le_refl _
    · split
      · exact Nat.le_succ _
      · exact Nat.succ_le_succ ih

end Context

/-- The aliases under which a field is declared, in order, where views are given by their aliases and
fields. -/
def ownersOf (headers : List (String × List String)) (field : String) : List String :=
  headers.foldl (fun owners (table, fields) =>
    if field ∈ fields then Context.addOwner table owners else owners) []

theorem ownersOf_append (headers : List (String × List String)) (table : String)
    (fields : List String) (field : String) :
    ownersOf (headers ++ [(table, fields)]) field =
      if field ∈ fields then Context.addOwner table (ownersOf headers field)
      else ownersOf headers field := by
  rw [ownersOf, List.foldl_append]
  rfl

theorem mem_ownersOf {headers : List (String × List String)} {table field : String} :
    table ∈ ownersOf headers field ↔ ∃ fields, (table, fields) ∈ headers ∧ field ∈ fields := by
  induction headers using List.reverseRecOn with
  | nil => simp [ownersOf]
  | append_singleton headers header ih =>
    obtain ⟨t, fields⟩ := header
    rw [ownersOf_append]
    by_cases hfield : field ∈ fields
    · rw [if_pos hfield, Context.mem_addOwner, ih]
      constructor
      · rintro (rfl | ⟨fields', hmem, hfield'⟩)
        · exact ⟨fields, by simp, hfield⟩
        · exact ⟨fields', List.mem_append_left _ hmem, hfield'⟩
      · rintro ⟨fields', hmem, hfield'⟩
        rcases List.mem_append.mp hmem with hmem | hmem
        · exact .inr ⟨fields', hmem, hfield'⟩
        · exact .inl (congrArg Prod.fst (List.mem_singleton.mp hmem))
    · rw [if_neg hfield, ih]
      refine ⟨fun ⟨fields', hmem, h⟩ => ⟨fields', List.mem_append_left _ hmem, h⟩, ?_⟩
      rintro ⟨fields', hmem, hfield'⟩
      rcases List.mem_append.mp hmem with hmem | hmem
      · exact ⟨fields', hmem, hfield'⟩
      · cases List.mem_singleton.mp hmem
        exact absurd hfield' hfield

theorem pairwise_ownersOf (headers : List (String × List String)) (field : String) :
    (ownersOf headers field).Pairwise (· < ·) := by
  induction headers using List.reverseRecOn with
  | nil => exact .nil
  | append_singleton headers header ih =>
    rw [ownersOf_append]
    split
    · exact Context.pairwise_addOwner ih
    · exact ih

theorem Labelled.get?_erase_self {α : Type} (m : Labelled α) (label : String) :
    (m.erase label).get? label = none :=
  lookup_filter_self m.entries label

namespace Context

/-! ### What the tables say -/

/-- The tables give the owners of a field: one of them directly, several as ambiguous. -/
def Owns (c : Context) (field : String) : List String → Prop
  | [] => c.direct.get? field = none ∧ c.ambiguous.get? field = none
  | [table] => c.direct.get? field = some table ∧ c.ambiguous.get? field = none
  | tables => c.direct.get? field = none ∧ c.ambiguous.get? field = some tables

variable {c d : Context} {headers : List (String × List String)}

theorem owns_of_two_le {field : String} {tables : List String} (h : 2 ≤ tables.length) :
    c.Owns field tables ↔ c.direct.get? field = none ∧ c.ambiguous.get? field = some tables := by
  rcases tables with _ | ⟨_, _ | ⟨_, _⟩⟩
  · cases h
  · cases Nat.le_of_succ_le_succ h
  · exact Iff.rfl

theorem Owns.registerField {field : String} {tables : List String} (h : c.Owns field tables)
    (table : String) : (registerField table c field).Owns field (addOwner table tables) := by
  rw [Context.registerField]
  -- the tables tell apart no owner, one owner, and more than one
  rcases tables with _ | ⟨owner, _ | ⟨second, rest⟩⟩ <;> obtain ⟨hdirect, hambiguous⟩ := h
  · rw [hambiguous, hdirect]
    exact ⟨Labelled.get?_put_self _ _ _, hambiguous⟩
  · rw [hambiguous, hdirect]
    by_cases hsame : owner = table
    · simp only [hsame, if_true, addOwner]
      exact ⟨hsame ▸ hdirect, hambiguous⟩
    · simp only [hsame, if_false]
      have hlength : 2 ≤ (addOwner table [owner]).length := by
        rw [addOwner, if_neg (Ne.symm hsame)]
        split <;> simp [addOwner]
      exact (owns_of_two_le hlength).mpr ⟨Labelled.get?_erase_self _ _, Labelled.get?_put_self _ _ _⟩
  · rw [hambiguous]
    have hlength := length_le_length_addOwner table (owner :: second :: rest)
    refine (owns_of_two_le ?_).mpr ⟨hdirect, Labelled.get?_put_self _ _ _⟩
    simp only [List.length_cons] at hlength ⊢
    omega

theorem Owns.congr {field : String} {tables : List String} (h : c.Owns field tables)
    (hdirect : d.direct.get? field = c.direct.get? field)
    (hambiguous : d.ambiguous.get? field = c.ambiguous.get? field) : d.Owns field tables := by
  rcases tables with _ | ⟨_, _ | ⟨_, _⟩⟩ <;> exact ⟨hdirect.trans h.1, hambiguous.trans h.2⟩

theorem Owns.registerFields {field : String} {tables : List String} (h : c.Owns field tables)
    (table : String) (fields : List String) : (c.registerFields table fields).Owns field
      (if field ∈ fields then addOwner table tables else tables) := by
  induction fields generalizing c tables with
  | nil => exact h
  | cons name fields ih =>
    show ((Context.registerField table c name).registerFields table fields).Owns _ _
    by_cases hname : field = name
    · subst hname
      have hrest := ih (h.registerField table)
      rw [addOwner_addOwner, ite_self] at hrest
      rwa [if_pos List.mem_cons_self]
    · obtain ⟨hdirect, hambiguous⟩ := c.get?_registerField_of_ne table hname
      simpa [hname] using ih (h.congr hdirect hambiguous)

/-- The tables are right for views with the given aliases and fields. -/
def Tracks (c : Context) (headers : List (String × List String)) : Prop :=
  ∀ field, c.Owns field (ownersOf headers field)

theorem Tracks.congr (h : c.Tracks headers) (hdirect : d.direct = c.direct)
    (hambiguous : d.ambiguous = c.ambiguous) : d.Tracks headers :=
  fun field => (h field).congr (by rw [hdirect]) (by rw [hambiguous])

/-- Registering the fields of a view enters it in the tables. -/
theorem Tracks.registerFields (h : c.Tracks headers) (table : String) (fields : List String) :
    (c.registerFields table fields).Tracks (headers ++ [(table, fields)]) := by
  intro field
  rw [ownersOf_append]
  exact (h field).registerFields table fields

/-- A view may be registered once more. -/
theorem Tracks.registerFields_again {table : String} {fields : List String}
    (h : c.Tracks (headers ++ [(table, fields)])) :
    (c.registerFields table fields).Tracks (headers ++ [(table, fields)]) := by
  intro field
  have howns := h.registerFields table fields field
  rw [ownersOf_append, ownersOf_append] at howns
  rw [ownersOf_append]
  by_cases hfield : field ∈ fields
  · rw [if_pos hfield, if_pos hfield, addOwner_addOwner] at howns
    rwa [if_pos hfield]
  · rw [if_neg hfield, if_neg hfield] at howns
    rwa [if_neg hfield]

end Context

/-- The aliases and the fields of the views. -/
def Frame.headers (f : Frame) : List (String × List String) :=
  f.views.map fun (table, v) => (table, v.fields)

@[simp] theorem Frame.headers_take (f : Frame) (places : List Nat) :
    (f.take places).headers = f.headers := by
  simp [headers, take, View.take, Function.comp_def]

@[simp] theorem Frame.headers_push (f : Frame) (table : String) (v : View) :
    (f.push table v).headers = f.headers ++ [(table, v.fields)] := by
  simp [headers, push]

theorem Frame.not_mem_headers {f : Frame} {table : String} (h : f.view? table = none) :
    table ∉ f.headers.map Prod.fst := by
  simp only [headers, List.map_map, Function.comp_def]
  intro hmem
  obtain ⟨p, hp, rfl⟩ := List.mem_map.mp hmem
  exact absurd rfl (bne_iff_ne.mp (List.lookup_eq_none_iff.mp h p hp))

/-- Where aliases differ, every view is found under its own. -/
theorem Frame.view?_of_mem {f : Frame} (haliases : (f.views.map Prod.fst).Nodup) {table : String}
    {v : View} (h : (table, v) ∈ f.views) : f.view? table = some v := by
  obtain ⟨before, after, hviews⟩ := List.append_of_mem h
  refine List.lookup_eq_some_iff.mpr ⟨before, after, hviews, fun p hp => ?_⟩
  rw [hviews, List.map_append, List.map_cons, List.nodup_append] at haliases
  simpa using Ne.symm (haliases.2.2 p.1 (List.mem_map_of_mem hp) table List.mem_cons_self)

/-- Made anew, the tables are right for the views. -/
theorem Context.tracks_rebuildFields (c : Context) : c.rebuildFields.Tracks c.frame.headers := by
  have hfold : ∀ (views : List (String × View)) (d : Context) (headers : List (String × List String)),
      d.Tracks headers →
      (views.foldl (fun d (table, v) => d.registerFields table v.fields) d).Tracks
        (headers ++ views.map fun (table, v) => (table, v.fields)) := by
    intro views
    induction views with
    | nil => exact fun d headers h => by simpa using h
    | cons p views ih =>
      exact fun d headers h => by simpa using ih _ _ (h.registerFields p.1 p.2.fields)
  exact hfold c.frame.views _ [] fun field => ⟨rfl, rfl⟩

/-! ### Fields are resolved by the views -/

/-- A view declares the field under the alias. -/
def Frame.Declares (f : Frame) (table field : String) : Prop :=
  ∃ v, (table, v) ∈ f.views ∧ v.declares field = true

/-- The field is declared under this alias alone. -/
def Frame.Owned (f : Frame) (field table : String) : Prop := ∀ t, f.Declares t field ↔ t = table

/-- The field is declared under these aliases, which are several and in order. -/
def Frame.Shared (f : Frame) (field : String) (tables : List String) : Prop :=
  2 ≤ tables.length ∧ tables.Pairwise (· < ·) ∧ ∀ t, f.Declares t field ↔ t ∈ tables

theorem Frame.declares_iff {f : Frame} {table field : String} :
    f.Declares table field ↔ table ∈ ownersOf f.headers field := by
  rw [mem_ownersOf]
  constructor
  · rintro ⟨v, hmem, hfield⟩
    exact ⟨v.fields, List.mem_map_of_mem hmem, List.contains_iff_mem.mp hfield⟩
  · rintro ⟨fields, hmem, hfield⟩
    obtain ⟨⟨t, v⟩, hv, hheader⟩ := List.mem_map.mp hmem
    cases hheader
    exact ⟨v, hv, List.contains_iff_mem.mpr hfield⟩

theorem Frame.owned_iff {f : Frame} {table field : String} :
    f.Owned field table ↔ ownersOf f.headers field = [table] := by
  rw [Owned]
  constructor
  · intro h
    refine (pairwise_ownersOf f.headers field).eq_of_mem_iff (List.pairwise_singleton _ _) fun t => ?_
    rw [← declares_iff, h, List.mem_singleton]
  · intro h t
    rw [declares_iff, h, List.mem_singleton]

theorem Frame.shared_iff {f : Frame} {field : String} {tables : List String} :
    f.Shared field tables ↔ 2 ≤ tables.length ∧ ownersOf f.headers field = tables := by
  rw [Shared]
  refine and_congr_right fun _ => ⟨fun ⟨hsorted, h⟩ => ?_, ?_⟩
  · refine (pairwise_ownersOf f.headers field).eq_of_mem_iff hsorted fun t => ?_
    rw [← declares_iff, h]
  · rintro rfl
    exact ⟨pairwise_ownersOf f.headers field, fun t => declares_iff⟩

/-- Fields are resolved as the views declare them. -/
structure Context.Resolved (c : Context) : Prop where
  nodup : (c.frame.views.map Prod.fst).Nodup
  direct : ∀ field table, c.direct.get? field = some table ↔ c.frame.Owned field table
  ambiguous : ∀ field tables, c.ambiguous.get? field = some tables ↔ c.frame.Shared field tables
  ok : ∀ field table, c.resolve field = .ok table ↔ c.frame.Owned field table
  shared : ∀ field tables, c.resolve field = .error (.ambiguousField field tables) ↔
    c.frame.Shared field tables
  unknown : ∀ field, c.resolve field =
    .error (if c.collapsed then .mixedAggregate else .unknownField field) ↔
      ∀ t, ¬c.frame.Declares t field

namespace Context

variable {c : Context} {field : String} {tables : List String}

theorem Owns.direct_iff (h : c.Owns field tables) {table : String} :
    c.direct.get? field = some table ↔ tables = [table] := by
  rcases tables with _ | ⟨_, _ | ⟨_, _⟩⟩ <;> simp [h.1]

theorem Owns.ambiguous_iff (h : c.Owns field tables) {others : List String} :
    c.ambiguous.get? field = some others ↔ 2 ≤ others.length ∧ tables = others := by
  rcases tables with _ | ⟨_, _ | ⟨_, _⟩⟩
  · simp only [h.2, reduceCtorEq, false_iff]
    rintro ⟨hlength, rfl⟩
    cases hlength
  · simp only [h.2, reduceCtorEq, false_iff]
    rintro ⟨hlength, rfl⟩
    cases Nat.le_of_succ_le_succ hlength
  · rw [h.2, Option.some_inj]
    exact ⟨fun he => ⟨by simp [← he], he⟩, And.right⟩

theorem Owns.resolve_eq_ok_iff (h : c.Owns field tables) {table : String} :
    c.resolve field = .ok table ↔ tables = [table] := by
  rw [resolve]
  rcases tables with _ | ⟨_, _ | ⟨_, _⟩⟩ <;> simp [h.1, h.2]

theorem Owns.resolve_eq_ambiguous_iff (h : c.Owns field tables) {others : List String} :
    c.resolve field = .error (.ambiguousField field others) ↔ 2 ≤ others.length ∧ tables = others := by
  rw [resolve, ← h.ambiguous_iff]
  rcases tables with _ | ⟨_, _ | ⟨_, _⟩⟩
  · cases c.collapsed <;> simp [h.1, h.2]
  · simp [h.1, h.2]
  · simp [h.1, h.2]

theorem Owns.resolve_eq_unknown_iff (h : c.Owns field tables) :
    c.resolve field = .error (if c.collapsed then .mixedAggregate else .unknownField field) ↔
      tables = [] := by
  rw [resolve]
  rcases tables with _ | ⟨_, _ | ⟨_, _⟩⟩
  · simp [h.1, h.2]
  · simp [h.1]
  · cases c.collapsed <;> simp [h.1, h.2]

/-- Fields are resolved by the views if the tables are right. -/
theorem Tracks.resolved (h : c.Tracks c.frame.headers) (nodup : (c.frame.headers.map Prod.fst).Nodup) :
    c.Resolved where
  nodup := by simpa [Frame.headers, Function.comp_def] using nodup
  direct field table := (h field).direct_iff.trans Frame.owned_iff.symm
  ambiguous field tables := (h field).ambiguous_iff.trans Frame.shared_iff.symm
  ok field table := (h field).resolve_eq_ok_iff.trans Frame.owned_iff.symm
  shared field tables := (h field).resolve_eq_ambiguous_iff.trans Frame.shared_iff.symm
  unknown field := by
    rw [(h field).resolve_eq_unknown_iff, List.eq_nil_iff_forall_not_mem]
    exact forall_congr' fun t => not_congr Frame.declares_iff.symm

end Context

/-! ### Operations -/

namespace Context

/-- The tables are right for the views, which have different aliases, and there are no views without a
source of rows. -/
structure Named (c : Context) : Prop where
  tracks : c.Tracks c.frame.headers
  nodup : (c.frame.headers.map Prod.fst).Nodup
  source : c.hasSource = false → c.frame.headers = []

variable {c d : Context}

theorem named_empty : Named {} := ⟨fun _ => ⟨rfl, rfl⟩, .nil, fun _ => rfl⟩

theorem named_of_headers {headers : List (String × List String)} (h : c.frame.headers = headers)
    (tracks : c.Tracks headers) (nodup : (headers.map Prod.fst).Nodup) (source : c.hasSource = true) :
    c.Named where
  tracks := h ▸ tracks
  nodup := h ▸ nodup
  source hc := by
    rw [source] at hc
    cases hc

theorem Named.congr (h : c.Named) (hheaders : d.frame.headers = c.frame.headers)
    (hdirect : d.direct = c.direct) (hambiguous : d.ambiguous = c.ambiguous)
    (hsource : d.hasSource = c.hasSource) : d.Named where
  tracks := hheaders ▸ h.tracks.congr hdirect hambiguous
  nodup := hheaders ▸ h.nodup
  source hd := hheaders.trans (h.source (hsource.symm.trans hd))

theorem Touched.named {rows : Nat → Prop} (t : c.Touched rows d) (h : c.Named) : d.Named :=
  h.congr (congrArg Frame.headers t.frame) t.direct t.ambiguous t.hasSource

@[simp] theorem hasSource_registerFields (c : Context) (table : String) (fields : List String) :
    (c.registerFields table fields).hasSource = c.hasSource := by
  obtain ⟨direct, ambiguous, h⟩ := c.registerFields_eq table fields
  rw [h]

@[simp] theorem hasSource_rebuildFields (c : Context) : c.rebuildFields.hasSource = c.hasSource := by
  obtain ⟨direct, ambiguous, h⟩ := c.rebuildFields_eq
  rw [h]

/-- Tables that are made anew are right for whatever the views have become. -/
theorem named_rebuildFields (nodup : (c.frame.headers.map Prod.fst).Nodup)
    (source : c.hasSource = false → c.frame.headers = []) : c.rebuildFields.Named where
  tracks := by
    rw [frame_rebuildFields]
    exact c.tracks_rebuildFields
  nodup := by rwa [frame_rebuildFields]
  source := by rwa [frame_rebuildFields, hasSource_rebuildFields]

end Context

namespace Step

variable {engine : Engine} {c d : Context}

theorem steady_named (engine : Engine) : Steady engine True Context.Named where
  note h := h.congr rfl rfl rfl rfl
  remember i label v h :=
    ((Context.Touched.refl (fun _ => True) _).remember (i := i) trivial engine label v).named h
  groupOf _ i := by
    intro c g d hc he
    obtain ⟨-, -, rfl⟩ | ⟨-, -, rfl⟩ := groupOf_eq_ok he
    · exact hc.congr rfl rfl rfl rfl
    · exact Context.named_rebuildFields .nil fun _ => rfl

/-- What selects rows, sorts them or notes something about them keeps the tables right. -/
theorem lasting_named (engine : Engine) :
    Lasting engine (fun e => True ∨ e.AggregateFree engine.functions) Context.Named
      fun _ => Context.Named :=
  (steady_named engine).lasting (fun _ h => h.congr rfl rfl rfl rfl)
    (fun places h => h.congr (Frame.headers_take _ places) rfl rfl rfl)
    (fun places h => h.congr (Frame.headers_take _ places) rfl rfl rfl)
    fun h hf => h.congr (congrArg (List.map _) hf.views) rfl rfl rfl

/-- A new view is registered under an alias of its own. -/
theorem nodup_headers_push {f : Frame} {table : String} (h : (f.headers.map Prod.fst).Nodup)
    (hnew : f.view? table = none) (fields : List String) :
    ((f.headers ++ [(table, fields)]).map Prod.fst).Nodup := by
  rw [List.map_append, List.nodup_append]
  refine ⟨h, List.nodup_singleton _, fun t ht t' ht' => ?_⟩
  rw [List.mem_singleton.mp ht']
  rintro rfl
  exact Frame.not_mem_headers hnew ht

theorem named_addView (table : String) (v : View) :
    Ensures Context.Named (addView table v) fun _ => Context.Named := by
  rw [addView]
  refine .get_bind fun c hc => ?_
  have hpush : Ensures (fun d => d.Named ∧ d.hasSource = true ∧ d.frame.view? table = none)
      (modify fun d =>
        let e := d.registerFields table v.fields
        { e with frame := e.frame.push table v }) fun _ => Context.Named := by
    refine .modify _ ?_
    rintro d ⟨hd, hsource, hnew⟩
    refine Context.named_of_headers ?_
      (hd.tracks.registerFields table v.fields) (nodup_headers_push hd.nodup hnew v.fields)
      ((Context.hasSource_registerFields d table v.fields).trans hsource)
    rw [Frame.headers_push, Context.frame_registerFields]
  cases hview : c.frame.view? table with
  | some _ => exact .throw_bind _ _
  | none =>
    simp only [Option.isSome_none, Bool.false_eq_true, if_false]
    cases hsource : c.hasSource with
    | false =>
      simp only [Bool.not_false, if_true]
      refine (Ensures.set (Q := fun _ d => d.Named ∧ d.hasSource = true ∧ d.frame.view? table = none)
        _ ?_).bind fun _ => hpush
      -- without a source there are no views, so the tables are empty
      have htracks := hc.tracks
      rw [hc.source hsource] at htracks
      exact ⟨⟨htracks, .nil, fun _ => rfl⟩, rfl, rfl⟩
    | true =>
      simp only [Bool.not_true, Bool.false_eq_true, if_false]
      by_cases hsize : v.size = c.size
      · simp only [hsize, ne_eq, not_true_eq_false, if_false]
        exact hpush.mono (fun d (hd : d = c) => hd ▸ ⟨hc, hsource, hview⟩) fun _ _ h => h
      · simp only [hsize, ne_eq, not_false_eq_true, if_true]
        exact .throw_bind _ _

theorem named_singleRow : Ensures Context.Named singleRow fun _ => Context.Named := by
  refine .modify _ fun c hc => ?_
  dsimp only
  cases hsource : c.hasSource with
  | true => exact hc
  | false =>
    have htracks := hc.tracks
    rw [hc.source hsource] at htracks
    exact ⟨htracks, .nil, fun _ => rfl⟩

theorem named_collapseTo (hc : c.Named) (columns : List KeyColumn) (buckets : List Bucket)
    (groups : List Group) : (c.collapseTo columns buckets groups).Named := by
  have haliases : ((c.frame.views.map fun (table, _) =>
      (table, Context.keyView table columns buckets)).map fun (table, v) => (table, v.fields)).map
        Prod.fst = c.frame.headers.map Prod.fst := by simp [Frame.headers, Function.comp_def]
  refine Context.named_rebuildFields ((congrArg List.Nodup haliases).mpr hc.nodup) fun hsource => ?_
  have hviews : c.frame.views = [] := List.map_eq_nil_iff.mp (hc.source hsource)
  show (c.frame.views.map _).map _ = []
  rw [hviews]
  rfl

theorem named_groupBy (keys : List Expr) :
    Ensures Context.Named (groupBy engine keys) fun _ => Context.Named := by
  rw [groupBy]
  refine ((lasting_named engine).buckets fun _ _ => .inl trivial).bind fun buckets => ?_
  refine (groups_partOf _ buckets).bind fun groups => .get_bind fun c hc => ?_
  obtain ⟨n, hnamed, -⟩ := hc
  refine (Ensures.lift (Q := fun _ d => d = c) _ fun d _ hd _ => hd).bind fun columns => ?_
  refine (Ensures.set (Q := fun _ => Context.Named) _ ?_).bind fun _ => .pure _ fun _ h => h
  exact (named_collapseTo hnamed columns buckets groups).congr rfl rfl rfl rfl

/-! ### Joins -/

/-- A look at a row that is in a group, or for which no aggregate is called, leaves the rest as it is. -/
theorem Local.ensures_touched {α : Type} {free : Prop} {action : Nat → Step α} {i : Nat}
    (h : Local free action) (hi : c.InGroup i ∨ free) :
    Ensures (c.Touched fun _ => True) (action i) fun _ => c.Touched fun _ => True := by
  intro d a e hd he
  have hi' : d.InGroup i ∨ free := by rwa [Context.InGroup, hd.frame]
  exact hd.trans (((h.answers hi' (.refl _ d)).of_ok he).2.mono fun _ _ => trivial)

/-- Trying the condition on pairs leaves the views as they were, but the new view is registered. -/
theorem tracks_tryPairs {headers : List (String × List String)} {candidates : List RowPair}
    {table : String} {right : View} {on : Expr} (hc : c.Tracks headers)
    (hlook : ∀ p ∈ candidates, c.InGroup p.1 ∨ on.AggregateFree engine.functions) :
    Ensures (c.Touched fun _ => True) (tryPairs engine candidates table right on)
      fun _ d => d.frame = c.frame ∧ d.hasSource = c.hasSource ∧
        d.Tracks (headers ++ [(table, right.fields)]) := by
  intro d pairs d' ht he
  -- the row at place `q.2` of the joined rows is the left row of the pair, so it is in a group if that
  -- one is
  have hholds : ∀ q ∈ candidates.zipIdx, Ensures
      ((d.joined table right candidates).Touched fun _ => True)
      ((on.evaluator engine).holds engine q.2)
      fun _ => (d.joined table right candidates).Touched fun _ => True := by
    intro q hq
    have hk : candidates[q.2]? = some q.1 := List.mem_zipIdx_iff_getElem?.mp hq
    refine (local_holds engine on).ensures_touched ((hlook q.1 (List.mem_of_getElem? hk)).imp_left ?_)
    intro hin
    have hlt : q.1.1 < d.frame.size := by
      rw [ht.frame]
      refine Nat.lt_of_not_le fun hge => ?_
      rw [Context.InGroup, Array.getElem?_eq_none hge] at hin
      cases hin
    have hrow : (d.joined table right candidates).frame.rows[q.2]? = d.frame.rows[q.1.1]? :=
      d.frame.getElem?_rows_take (by rw [List.getElem?_map, hk]; rfl) hlt
    rwa [Context.InGroup, hrow, ht.frame]
  obtain ⟨⟨e, he', rfl⟩, -⟩ := ensures_tryPairs (.refl _ _) hholds rfl he
  have hregistered := (hc.congr ht.direct ht.ambiguous).registerFields table right.fields
  refine ⟨ht.frame, ?_, hregistered.congr he'.direct he'.ambiguous⟩
  exact he'.hasSource.trans ((Context.hasSource_registerFields d table right.fields).trans ht.hasSource)

/-- The tables stay right when a view is joined, if rows come from a source and the condition of the join
does not turn them into one group. -/
theorem named_leftJoin {aliases all : List String} {table : String} {right : View} {on : Expr}
    (hc : c.Named) (hsource : c.hasSource = true)
    (hlook : ∀ i < c.size, c.InGroup i ∨ on.AggregateFree engine.functions)
    (h : leftJoin engine aliases table right on c = .ok all d) : d.Named := by
  let joined := c.frame.headers ++ [(table, right.fields)]
  have hjoined : Ensures (· = c) (leftJoin engine aliases table right on) fun _ => Context.Named := by
    -- `K` is what holds when candidates were found, `Q` is what holds when the pairs are known
    refine ensures_leftJoin
      (K := fun candidates e => c.frame.view? table = none ∧ c.Touched (fun _ => True) e ∧
        ∀ p ∈ candidates, p.1 < c.size)
      (Q := fun _ e => c.frame.view? table = none ∧ e.frame = c.frame ∧ e.hasSource = c.hasSource ∧
        (e.registerFields table right.fields).Tracks joined) ?_ ?_ ?_ ?_ ?_
    · rintro e rfl hnew
      exact ⟨hnew, rfl, rfl, hc.tracks.registerFields table right.fields⟩
    · rintro e rfl hnew
      exact ⟨hnew, .refl _ _, fun p hp => (mem_allPairs hp).1⟩
    · rintro e key field rfl hnew hfound
      obtain ⟨-, o, -, -, ⟨hown, -⟩, -⟩ := Context.equalityKeys?_eq_some hfound
      have hkey := Context.aggregateFree_of_fieldOwner? engine.functions hown
      have hkeys : ∀ i < e.size, Ensures (e.Touched fun _ => True)
          ((key.evaluator engine).value engine i false) fun _ => e.Touched fun _ => True :=
        fun i _ => (local_evaluate engine key false).ensures_touched (.inr hkey)
      exact (ensures_mergePairs hkeys right field).mono
        (fun e' (he' : e' = e) => he' ▸ ⟨.refl _ _, rfl⟩) fun _ _ h => ⟨hnew, h⟩
    · intro candidates e pairs e' ⟨hnew, ht, hrange⟩ he
      obtain ⟨hframe, hsame, htracks⟩ := tracks_tryPairs hc.tracks
        (fun p hp => hlook p.1 (hrange p hp)) ht he
      -- the fields were registered already when the pairs were tried
      exact ⟨hnew, hframe, hsame, htracks.registerFields_again⟩
    · rintro pairs e ⟨hnew, hframe, hsame, htracks⟩
      refine Context.named_of_headers ?_ htracks (nodup_headers_push hc.nodup hnew right.fields)
        ((Context.hasSource_registerFields e table right.fields).trans (hsame.trans hsource))
      exact (Frame.headers_push _ table _).trans (by rw [Frame.headers_take, hframe]; rfl)
  exact hjoined rfl h

end Step

/-- A view is joined to rows from a source, on a condition that calls no aggregate unless the rows are in
groups already. -/
def Operation.Fits (engine : Engine) (c : Context) : Operation → Prop
  | .leftJoin _ _ _ on => c.hasSource = true ∧
      ∀ i < c.size, c.InGroup i ∨ on.AggregateFree engine.functions
  | _ => True

/-- Every operation keeps the tables right. -/
theorem Operation.named_run {engine : Engine} {o : Operation} {c d : Context} (hc : c.Named)
    (hfits : o.Fits engine c) (h : o.run engine c = .ok () d) : d.Named := by
  have L := Step.lasting_named engine
  have hadmitted : ∀ {e : Expr}, e.Admitted fun e => True ∨ e.AggregateFree engine.functions :=
    ⟨.inl trivial, fun _ _ => .inl trivial⟩
  cases o with
  | reset =>
    cases h
    exact Context.named_empty
  | addView table v => exact Step.named_addView table v hc h
  | singleRow => exact Step.named_singleRow hc h
  | leftJoin aliases table right on =>
    obtain ⟨all, c', hjoin, h⟩ := Step.exists_of_bind_eq_ok h
    cases h
    exact Step.named_leftJoin hc hfits.1 hfits.2 hjoin
  | filter condition => exact L.filter (.inl trivial) hc h
  | groupBy keys => exact (Step.named_groupBy keys).discard hc h
  | partitionBy keys => exact (L.partitionBy fun _ _ => .inl trivial).discard hc h
  | window e => exact L.computeWindow e (fun _ _ => .inl trivial) hc h
  | orderBy items => exact (L.orderBy fun _ _ => hadmitted).discard hc h
  | limit bounds => exact L.limit bounds hc h
  | evaluate e row inAggregate =>
    exact ((Step.steady_named engine).evaluate (.inl trivial) row inAggregate).discard hc h
  | select items quantifier order bounds =>
    have hfresh : d = {} := (Step.fresh_select items quantifier order bounds).discard
      (Q := fun d => d = {}) trivial h
    exact hfresh ▸ Context.named_empty

theorem Context.Named.after {engine : Engine} {c : Context} {o : Operation} (hc : c.Named)
    (hfits : o.Fits engine c) : (c.after engine o).Named := by
  rw [Context.after]
  split
  · next d h => exact o.named_run hc hfits h
  · exact hc

/-- And so does every sequence of them. -/
theorem Operation.named_runAll {engine : Engine} {operations : List Operation} {start c : Context}
    (hstart : start.Named)
    (hfits : ∀ before o after d, operations = before ++ o :: after →
      runAll engine before start = .ok () d → o.Fits engine d)
    (h : runAll engine operations start = .ok () c) : c.Named := by
  induction operations generalizing start with
  | nil =>
    cases h
    exact hstart
  | cons o operations ih =>
    obtain ⟨_, d, hrun, h⟩ := Step.exists_of_bind_eq_ok h
    refine ih (o.named_run hstart (hfits [] o operations start rfl rfl) hrun) ?_ h
    rintro before o' after e rfl he
    exact hfits (o :: before) o' after e rfl ((Step.bind_of_ok hrun).trans he)

/-- After any sequence of operations from a new context fields are resolved as the current views declare
them, if views are joined only to rows from a source, and on conditions that do not turn all rows into one
group. -/
theorem Operation.resolved_runAll {engine : Engine} {operations : List Operation} {c : Context}
    (hfits : ∀ before o after d, operations = before ++ o :: after →
      runAll engine before {} = .ok () d → o.Fits engine d)
    (h : runAll engine operations {} = .ok () c) : c.Resolved := by
  have hnamed := named_runAll Context.named_empty hfits h
  exact hnamed.tracks.resolved hnamed.nodup

theorem Operation.resolved_runAll_points : ∃ c, runAll .builtin pointOperations {} = .ok () c ∧
    c.Resolved := by
  have hfits : ∀ before o after d, pointOperations = before ++ o :: after →
      runAll .builtin before {} = .ok () d → o.Fits .builtin d := by
    intro before o after d he hd
    match before, he with
    | [], he =>
      cases he
      trivial
    | [first], he =>
      cases he
      cases hd
      exact ⟨rfl, fun i hi => .inr (.of_literal _ _)⟩
    | first :: second :: before, he =>
      have ho : o ∈ pointOperations.drop 2 := by
        rw [he]
        simp
      simp only [pointOperations, List.drop_succ_cons, List.drop_zero, List.mem_cons] at ho
      rcases ho with rfl | rfl | rfl | rfl | ho
      all_goals trivial
  obtain ⟨c, hc⟩ : ∃ c, runAll .builtin pointOperations {} = .ok () c := ⟨_, rfl⟩
  exact ⟨c, hc, resolved_runAll hfits hc⟩

/-- A join of two views whose condition counts the rows. -/
def countedJoin : List Operation :=
  [.addView "a" ⟨["x"], #[.ofList [("x", .ofNat 1)]]⟩,
    .leftJoin ["a"] "b" ⟨["y"], #[.ofList [("y", .ofNat 1)]]⟩
      (.binary .gt (.callStar "count") (.literal (.ofNat 0)))]

/-- The field `x` is not resolved after such a join, although the view that declares it is there. -/
theorem Operation.not_forall_resolved_runAll : ¬ ∀ (operations : List Operation) (c : Context),
    runAll .builtin operations {} = .ok () c → c.Resolved := by
  intro h
  obtain ⟨c, hc, hknows, hany⟩ : ∃ c, runAll .builtin countedJoin {} = .ok () c ∧
      c.knows "x" = false ∧
      (c.frame.views.any fun p => p.1 == "a" && p.2.declares "x") = true :=
    ⟨_, rfl, by decide +kernel, by decide +kernel⟩
  obtain ⟨⟨t, v⟩, hv, hdeclares⟩ := List.any_eq_true.mp hany
  obtain ⟨-, hfield⟩ := Bool.and_eq_true_iff.mp hdeclares
  have hnone : c.direct.get? "x" = none ∧ c.ambiguous.get? "x" = none := by
    simpa [Context.knows, Labelled.has] using hknows
  -- the tables do not know the field, so no view may declare it
  have hunknown := (h countedJoin c hc).unknown "x"
  rw [Context.resolve, hnone.1, hnone.2] at hunknown
  exact hunknown.mp rfl t ⟨v, hv, hfield⟩

end TableQuery
