/-
Rows with one key stand in one bucket.

* `Value.sameKey_eq_sortCompare` — values of one group are those that stand together when sorted, so that
  falling into one group is an equivalence (`Value.sameKeys_congr` and its companions);
* `Value.sameKey_eq_equal` — it is the equality of queries, but for Null and what is not a number,
  which equal nothing;
* `Bucket.hold_ofKeys` — the members of a bucket are the places of all keys that are the same as its
  own, in order, and every key has one bucket.
-/
import Mathlib.Algebra.Order.Group.Nat
import Mathlib.Data.List.Induction
import TableQuery.Context.Grouping
import TableQuery.Proofs.ValueOrder

namespace TableQuery

/-! ### Bits of a number -/

namespace Number

theorem magnitudeBits_eq (x : Float) : magnitudeBits x = x.toBits.toNat % 2 ^ 63 := by
  rw [magnitudeBits, UInt64.toNat_mod]
  rfl

theorem isNegative_iff (x : Float) : isNegative x = true ↔ 2 ^ 63 ≤ x.toBits.toNat := by
  rw [isNegative, decide_eq_true_iff, UInt64.le_iff_toNat_le]
  rfl

theorem isNotANumber_eq (x : Float) : isNotANumber x =
    (x.toBits.toNat / 2 ^ 52 % 2048 == 2047 && x.toBits.toNat % 2 ^ 52 != 0) := by
  rw [isNotANumber, exponentBits, fractionBits, UInt64.toNat_mod, UInt64.toNat_mod, UInt64.toNat_div]
  rfl

/-- A number has the bits of another, but for the sign of zero, when it equals that. -/
theorem canonicalBits_beq (x y : Float) (hx : isNotANumber x = false) :
    (canonicalBits x == canonicalBits y) = equal x y := by
  have hlt : x.toBits.toNat < 2 ^ 64 := x.toBits.toNat_lt
  have hlt' : y.toBits.toNat < 2 ^ 64 := y.toBits.toNat_lt
  have hnan := isNotANumber_eq x
  rw [hx] at hnan
  rw [canonicalBits, canonicalBits, equal, orderKey, orderKey, hx]
  cases hy : isNotANumber y with
  | true =>
    have hne : (if magnitudeBits x = 0 then 0 else x.toBits.toNat) ≠ 0x7ff8000000000000 := by
      intro h
      split at h
      · cases h
      · rw [h] at hnan
        cases hnan
    simpa using hne
  | false =>
    rw [Bool.eq_iff_iff]
    have hn := isNegative_iff x
    have hn' := isNegative_iff y
    have hm := magnitudeBits_eq x
    have hm' := magnitudeBits_eq y
    generalize isNegative x = n at *
    generalize isNegative y = n' at *
    simp only [Bool.false_eq_true, if_false, beq_iff_eq]
    cases n <;> cases n' <;> simp at hn hn' ⊢ <;> split <;> split <;> omega

/-- What is not a number equals nothing. -/
theorem equal_of_notANumber {x : Float} (hx : isNotANumber x = true) (y : Float) :
    equal y x = false := by
  rw [equal, orderKey, orderKey, hx]
  cases isNotANumber y <;> rfl

/-- What is not a number has bits of its own. -/
theorem canonicalBits_beq_of_notANumber {x : Float} (hx : isNotANumber x = true) (y : Float) :
    (canonicalBits x == canonicalBits y) = isNotANumber y := by
  cases hy : isNotANumber y with
  | true =>
    rw [canonicalBits, canonicalBits, hx, hy]
    rfl
  | false =>
    rw [Bool.beq_comm, canonicalBits_beq y x hy, equal_of_notANumber hx]

/-- Numbers stand together when sorted if they have the same bits, but for the sign of zero. -/
theorem sortCompare_eq_iff (x y : Float) :
    sortCompare x y = .eq ↔ canonicalBits x = canonicalBits y := by
  rw [← beq_iff_eq (a := canonicalBits x)]
  cases hx : isNotANumber x with
  | true =>
    rw [canonicalBits_beq_of_notANumber hx, sortCompare, orderKey, orderKey, hx]
    cases isNotANumber y <;> simp
  | false =>
    rw [canonicalBits_beq x y hx, equal, sortCompare]
    cases hkey : orderKey x with
    | none => rw [orderKey, hx] at hkey; cases hkey
    | some a =>
      cases orderKey y with
      | none => simp
      | some b => simp

end Number

/-! ### Values in one group -/

namespace Value

mutual

/-- Values fall into one group if they stand together when sorted. -/
theorem sameKey_eq_sortCompare : ∀ x y : Value, x.sameKey y = (x.sortCompare y == .eq)
  | .null, y => by cases y <;> rfl
  | .boolean a, y => by
    cases y with
    | boolean b => cases a <;> cases b <;> rfl
    | _ => rfl
  | .number x, y => by
    cases y with
    | number y =>
      rw [Bool.eq_iff_iff]
      show (Number.canonicalBits x == _) = true ↔ (Number.sortCompare x y == _) = true
      rw [beq_iff_eq, beq_iff_eq, Number.sortCompare_eq_iff]
    | _ => rfl
  | .string s, y => by
    cases y with
    | string t =>
      rw [Bool.eq_iff_iff]
      show (s == t) = true ↔ (compare s t == _) = true
      rw [beq_iff_eq, beq_iff_eq, Std.LawfulEqOrd.compare_eq_iff_eq]
    | _ => rfl
  | .list xs, y => by
    cases y with
    | list ys =>
      rw [sameKey, sortCompare]
      exact sameKeys_eq_sortCompareAll xs ys
    | _ => rfl

theorem sameKeys_eq_sortCompareAll : ∀ xs ys : List Value,
    sameKeys xs ys = (sortCompareAll xs ys == .eq)
  | [], ys => by cases ys <;> rfl
  | x :: xs, [] => rfl
  | x :: xs, y :: ys => by
    rw [sameKeys, sortCompareAll, sameKey_eq_sortCompare x y, sameKeys_eq_sortCompareAll xs ys]
    cases x.sortCompare y <;> rfl

end

theorem sameKey_refl (x : Value) : x.sameKey x = true := by
  have hself : x.sortCompare x = .eq := Std.ReflCmp.compare_self
  rw [sameKey_eq_sortCompare, hself]
  rfl

theorem sameKey_comm (x y : Value) : x.sameKey y = y.sameKey x := by
  rw [sameKey_eq_sortCompare, sameKey_eq_sortCompare, sortCompare_swap]
  cases y.sortCompare x <;> rfl

/-- Values in one group are the same to every other value. -/
theorem sameKey_congr {x y : Value} (h : x.sameKey y = true) (z : Value) :
    x.sameKey z = y.sameKey z := by
  rw [sameKey_eq_sortCompare, beq_iff_eq] at h
  rw [sameKey_eq_sortCompare, sameKey_eq_sortCompare, Std.TransCmp.congr_left h]

/-- Tuples fall into one group as lists of the same items do. -/
theorem sameKeys_eq_sameKey (xs ys : List Value) :
    sameKeys xs ys = (list xs).sameKey (list ys) := by
  rw [sameKey]

theorem sameKeys_refl (xs : List Value) : sameKeys xs xs = true := by
  rw [sameKeys_eq_sameKey, sameKey_refl]

theorem sameKeys_comm (xs ys : List Value) : sameKeys xs ys = sameKeys ys xs := by
  rw [sameKeys_eq_sameKey, sameKeys_eq_sameKey, sameKey_comm]

theorem sameKeys_congr {xs ys : List Value} (h : sameKeys xs ys = true) (zs : List Value) :
    sameKeys xs zs = sameKeys ys zs := by
  rw [sameKeys_eq_sameKey] at h
  rw [sameKeys_eq_sameKey, sameKeys_eq_sameKey, sameKey_congr h]

mutual

/-- The value is not Null and is a number if it should be one, and so is all that is in it. -/
def isDefinite : Value → Bool
  | null => false
  | number x => !Number.isNotANumber x
  | list xs => areDefinite xs
  | _ => true

/-- All values are definite. -/
def areDefinite : List Value → Bool
  | [] => true
  | x :: xs => x.isDefinite && areDefinite xs

end

mutual

/-- A definite value falls into one group with just what it equals. -/
theorem sameKey_eq_equal : ∀ {x : Value}, x.isDefinite = true → ∀ y, x.sameKey y = x.equal y
  | .null, h, _ => by cases h
  | .boolean a, _, y => by cases y <;> rfl
  | .number x, h, y => by
    cases y with
    | number y =>
      have hx : Number.isNotANumber x = false := by simpa [isDefinite] using h
      exact Number.canonicalBits_beq x y hx
    | _ => rfl
  | .string s, _, y => by cases y <;> rfl
  | .list xs, h, y => by
    cases y with
    | list ys =>
      rw [isDefinite] at h
      rw [sameKey, equal]
      exact sameKeys_eq_equalAll h ys
    | _ => rfl

theorem sameKeys_eq_equalAll : ∀ {xs : List Value}, areDefinite xs = true →
    ∀ ys, sameKeys xs ys = equalAll xs ys
  | [], _, ys => by cases ys <;> rfl
  | x :: xs, h, [] => rfl
  | x :: xs, h, y :: ys => by
    rw [areDefinite, Bool.and_eq_true] at h
    rw [sameKeys, equalAll, sameKey_eq_equal h.1 y, sameKeys_eq_equalAll h.2 ys]

end

theorem isNull_iff {x : Value} : x.isNull = true ↔ x = .null := by
  cases x <;> simp [isNull]

theorem not_isNull_of_isDefinite {x : Value} (h : x.isDefinite = true) : x.isNull = false := by
  cases x with
  | null => cases h
  | _ => rfl

end Value

/-! ### Buckets -/

namespace Bucket

/-- The places at which the keys are the same as the given one. -/
def placesOf (key : List Value) (keys : List (List Value)) : List Nat :=
  (keys.zipIdx.filter fun p => Value.sameKeys key p.1).map Prod.snd

theorem placesOf_append (key : List Value) (keys : List (List Value)) (last : List Value) :
    placesOf key (keys ++ [last]) =
      placesOf key keys ++ if Value.sameKeys key last then [keys.length] else [] := by
  rw [placesOf, List.zipIdx_append, List.filter_append, List.map_append, placesOf]
  cases h : Value.sameKeys key last <;> simp [h]

theorem lt_length_of_mem_placesOf {key : List Value} {keys : List (List Value)} {i : Nat}
    (h : i ∈ placesOf key keys) : i < keys.length := by
  obtain ⟨p, hp, rfl⟩ := List.mem_map.mp h
  have hlt := List.snd_lt_of_mem_zipIdx (List.mem_filter.mp hp).1
  simpa using hlt

theorem placesOf_range (key : List Value) (f : Nat → List Value) (n : Nat) :
    placesOf key ((List.range n).map f) =
      (List.range n).filter fun i => Value.sameKeys key (f i) := by
  have hzip : ((List.range n).map f).zipIdx = (List.range n).map fun i => (f i, i) := by
    refine List.ext_getElem (by simp) fun i hi _ => ?_
    simp
  rw [placesOf, hzip, List.filter_map, List.map_map]
  exact List.map_id _

/-- The buckets hold the places of all keys, each with those that are the same. -/
structure Hold (keys : List (List Value)) (buckets : List Bucket) : Prop where
  members : ∀ b ∈ buckets, b.members.toList = placesOf b.key keys
  key : ∀ b ∈ buckets, b.key ∈ keys
  pairwise : buckets.Pairwise fun a b => Value.sameKeys a.key b.key = false
  complete : ∀ key ∈ keys, ∃ b ∈ buckets, Value.sameKeys b.key key = true

/-- What a key becomes a member of: the first bucket with the same key, or a new one. -/
theorem add_eq (key : List Value) (row : Nat) (buckets : List Bucket) :
    (∃ before b after, buckets = before ++ b :: after ∧ Value.sameKeys b.key key = true ∧
      add key row buckets = before ++ { b with members := b.members.push row } :: after) ∨
    ((∀ b ∈ buckets, Value.sameKeys b.key key = false) ∧
      add key row buckets = buckets ++ [⟨key, #[row]⟩]) := by
  induction buckets with
  | nil => exact .inr ⟨fun b hb => (by cases hb), rfl⟩
  | cons b rest ih =>
    rw [add]
    cases h : Value.sameKeys b.key key with
    | true => exact .inl ⟨[], b, rest, rfl, h, rfl⟩
    | false =>
      obtain ⟨before, b', after, rfl, hb', hadd⟩ | ⟨hnone, hadd⟩ := ih
      · exact .inl ⟨b :: before, b', after, rfl, hb', by simp [hadd]⟩
      · refine .inr ⟨fun b' hb' => ?_, by simp [hadd]⟩
        obtain rfl | hb' := List.mem_cons.mp hb'
        · exact h
        · exact hnone b' hb'

/-- A bucket of other keys holds no new place. -/
theorem Hold.members_of_ne {keys : List (List Value)} {buckets : List Bucket} (h : Hold keys buckets)
    {b : Bucket} (hb : b ∈ buckets) {key : List Value} (hkey : Value.sameKeys b.key key = false) :
    b.members.toList = placesOf b.key (keys ++ [key]) := by
  rw [placesOf_append, hkey, h.members b hb]
  exact (List.append_nil _).symm

/-- A key becomes a member of the bucket that has the same key. -/
theorem Hold.push {keys : List (List Value)} {before after : List Bucket} {b : Bucket}
    {key : List Value} (h : Hold keys (before ++ b :: after)) (hb : Value.sameKeys b.key key = true) :
    Hold (keys ++ [key])
      (before ++ { b with members := b.members.push keys.length } :: after) := by
  have hpairwise := List.pairwise_append.mp h.pairwise
  have hafter := List.pairwise_cons.mp hpairwise.2.1
  refine ⟨fun b' hb' => ?_, fun b' hb' => List.mem_append_left _ ?_, ?_, fun key' hkey' => ?_⟩
  · obtain hb' | rfl | hb' : b' ∈ before ∨ b' = _ ∨ b' ∈ after := by simpa using hb'
    · refine h.members_of_ne (by simp [hb']) ?_
      rw [Value.sameKeys_comm, ← Value.sameKeys_congr hb, Value.sameKeys_comm]
      exact hpairwise.2.2 b' hb' b List.mem_cons_self
    · rw [placesOf_append, hb, Array.toList_push, h.members b (by simp)]
      rfl
    · refine h.members_of_ne (by simp [hb']) ?_
      rw [Value.sameKeys_comm, ← Value.sameKeys_congr hb]
      exact hafter.1 b' hb'
  · obtain hb' | rfl | hb' : b' ∈ before ∨ b' = _ ∨ b' ∈ after := by simpa using hb'
    · exact h.key b' (by simp [hb'])
    · exact h.key b (by simp)
    · exact h.key b' (by simp [hb'])
  · refine List.pairwise_append.mpr ⟨hpairwise.1, List.pairwise_cons.mpr ⟨hafter.1, hafter.2⟩, ?_⟩
    intro a ha b' hb'
    obtain rfl | hb' := List.mem_cons.mp hb'
    · exact hpairwise.2.2 a ha b List.mem_cons_self
    · exact hpairwise.2.2 a ha b' (List.mem_cons_of_mem _ hb')
  · have hfound : ∃ b' ∈ before ++ b :: after, Value.sameKeys b'.key key' = true := by
      obtain hkey' | hkey' := List.mem_append.mp hkey'
      · exact h.complete key' hkey'
      · exact ⟨b, by simp, List.mem_singleton.mp hkey' ▸ hb⟩
    obtain ⟨b', hb', hsame⟩ := hfound
    obtain hb' | rfl | hb' : b' ∈ before ∨ b' = b ∨ b' ∈ after := by simpa using hb'
    · exact ⟨b', by simp [hb'], hsame⟩
    · exact ⟨{ b' with members := b'.members.push keys.length }, by simp, hsame⟩
    · exact ⟨b', by simp [hb'], hsame⟩

/-- A key that has no bucket has no places before. -/
theorem Hold.placesOf_eq_nil {keys : List (List Value)} {buckets : List Bucket} {key : List Value}
    (h : Hold keys buckets) (hnone : ∀ b ∈ buckets, Value.sameKeys b.key key = false) :
    placesOf key keys = [] := by
  refine List.map_eq_nil_iff.mpr (List.filter_eq_nil_iff.mpr fun p hp hsame => ?_)
  obtain ⟨b, hb, hkey⟩ := h.complete p.1 (List.fst_mem_of_mem_zipIdx hp)
  have hfalse := hnone b hb
  rw [Value.sameKeys_congr hkey, Value.sameKeys_comm, hsame] at hfalse
  cases hfalse

/-- A key that has no bucket gets a new one. -/
theorem Hold.append {keys : List (List Value)} {buckets : List Bucket} {key : List Value}
    (h : Hold keys buckets) (hnone : ∀ b ∈ buckets, Value.sameKeys b.key key = false) :
    Hold (keys ++ [key]) (buckets ++ [⟨key, #[keys.length]⟩]) := by
  refine ⟨fun b hb => ?_, fun b hb => ?_, ?_, fun key' hkey' => ?_⟩
  · obtain hb | hb := List.mem_append.mp hb
    · exact h.members_of_ne hb (hnone b hb)
    · rw [List.mem_singleton.mp hb, placesOf_append, h.placesOf_eq_nil hnone, Value.sameKeys_refl]
      rfl
  · obtain hb | hb := List.mem_append.mp hb
    · exact List.mem_append_left _ (h.key b hb)
    · rw [List.mem_singleton.mp hb]
      exact List.mem_append_right _ List.mem_cons_self
  · refine List.pairwise_append.mpr ⟨h.pairwise, List.pairwise_singleton _ _, fun a ha b hb => ?_⟩
    rw [List.mem_singleton.mp hb]
    exact hnone a ha
  · obtain hkey' | hkey' := List.mem_append.mp hkey'
    · obtain ⟨b, hb, hsame⟩ := h.complete key' hkey'
      exact ⟨b, List.mem_append_left _ hb, hsame⟩
    · refine ⟨⟨key, #[keys.length]⟩, List.mem_append_right _ List.mem_cons_self, ?_⟩
      rw [List.mem_singleton.mp hkey']
      exact Value.sameKeys_refl key

theorem Hold.add {keys : List (List Value)} {buckets : List Bucket} (h : Hold keys buckets)
    (key : List Value) : Hold (keys ++ [key]) (add key keys.length buckets) := by
  obtain ⟨before, b, after, rfl, hb, hadd⟩ | ⟨hnone, hadd⟩ := add_eq key keys.length buckets
  · exact hadd ▸ h.push hb
  · exact hadd ▸ h.append hnone

theorem hold_ofKeys (keys : List (List Value)) : Hold keys (ofKeys keys) := by
  induction keys using List.reverseRecOn with
  | nil =>
    exact ⟨fun b hb => (by cases hb), fun b hb => (by cases hb), .nil, fun key h => (by cases h)⟩
  | append_singleton keys key ih =>
    have hadd : ofKeys (keys ++ [key]) = Bucket.add key keys.length (ofKeys keys) := by
      rw [ofKeys, List.zipIdx_append, List.foldl_append, ← ofKeys]
      simp
    rw [hadd]
    exact ih.add key

/-- Members are places of keys. -/
theorem lt_length_of_mem_members {keys : List (List Value)} {b : Bucket} (hb : b ∈ ofKeys keys)
    {i : Nat} (hi : i ∈ b.members) : i < keys.length := by
  have hmem : i ∈ b.members.toList := Array.mem_toList_iff.mpr hi
  rw [(hold_ofKeys keys).members b hb] at hmem
  exact lt_length_of_mem_placesOf hmem

end Bucket

/-! ### Labels and columns of keys -/

/-- No label is found twice just if all are different, and none of them was seen before. -/
theorem duplicateLabel?_eq_none {seen labels : List String} :
    duplicateLabel? seen labels = none ↔ labels.Nodup ∧ ∀ l ∈ labels, l ∉ seen := by
  induction labels generalizing seen with
  | nil => simp [duplicateLabel?]
  | cons l labels ih =>
    rw [duplicateLabel?]
    by_cases hseen : l ∈ seen
    · simp [hseen]
    · simp only [List.contains_eq_mem, hseen, decide_false, Bool.false_eq_true, if_false, ih,
        List.nodup_cons, List.mem_cons, not_or, forall_eq_or_imp, not_false_eq_true, true_and]
      constructor
      · rintro ⟨hnodup, hfresh⟩
        exact ⟨⟨fun hl => (hfresh l hl).1 rfl, hnodup⟩, fun l' hl' => (hfresh l' hl').2⟩
      · rintro ⟨⟨hl, hnodup⟩, hfresh⟩
        exact ⟨hnodup, fun l' hl' => ⟨fun h => hl (h ▸ hl'), hfresh l' hl'⟩⟩

theorem Context.keyColumn_congr {c d : Context} (h : ∀ field, d.resolve field = c.resolve field) :
    d.keyColumn = c.keyColumn := by
  funext e
  rw [keyColumn, keyColumn]
  split
  · rw [h]
  · rfl
  · rfl

/-- Whatever is no field becomes a column under its label. -/
theorem Context.label_of_keyColumn {c : Context} {k : Expr} {label : String}
    (hcolumn : c.keyColumn k = .ok (.label label)) :
    k.label = label ∧ (∀ field, k.body ≠ .field field) ∧
      ∀ table field, k.body ≠ .qualified table field := by
  rw [keyColumn] at hcolumn
  cases hk : k.body with
  | field field => cases hr : c.resolve field <;> simp [hk, hr, Except.map] at hcolumn
  | qualified owner field => simp [hk] at hcolumn
  | _ => exact ⟨by simpa [hk] using hcolumn, by simp, by simp⟩

end TableQuery
