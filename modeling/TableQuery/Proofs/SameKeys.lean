/-
When values fall into one group.

Rows are grouped by an equality of values, sorted by an order, looked up by the words of a hash, and compared in
conditions by an equality under which Null and what is not a number equal nothing. All of these tell the same
values apart, but for such values in conditions.

* `Value.sameKey_of_equal`, `Value.equal_of_sameKey` — what equals another value falls into its group, and
  what equals itself equals all of its group;
* `Value.hashWords_append_inj` — the words of a value end where they end, and give its group;
* `Value.sameKey_laws` — the equality of groups beside the order, the hash and the equality of conditions.
-/
import TableQuery.Proofs.FirstMembers

namespace TableQuery

/-! ### Bytes of texts -/

theorem toUTF8_eq_flatMap (s : String) :
    s.toUTF8.data.toList = s.toList.flatMap String.utf8EncodeChar := by
  show s.toByteArray.data.toList = _
  rw [← String.utf8Encode_toList, List.utf8Encode, List.data_toByteArray]

/-- No byte of a character has all bits set. -/
theorem toNat_lt_of_mem_utf8EncodeChar {c : Char} {b : UInt8} (h : b ∈ String.utf8EncodeChar c) :
    b.toNat < 0xff := by
  rw [String.utf8EncodeChar.eq_def] at h
  dsimp only at h
  split at h
  · obtain rfl := List.mem_singleton.mp h
    rw [UInt8.toNat_ofNat']
    omega
  · split at h
    · obtain rfl | rfl := List.mem_pair.mp h <;> simp <;> omega
    · split at h
      · obtain rfl | rfl | rfl := by simpa only [List.mem_cons, List.not_mem_nil, or_false] using h
        all_goals simp; omega
      · obtain rfl | rfl | rfl | rfl := by
          simpa only [List.mem_cons, List.not_mem_nil, or_false] using h
        all_goals simp; omega

theorem lt_of_mem_toUTF8 {s : String} {w : Nat} (h : w ∈ s.toUTF8.data.toList.map UInt8.toNat) :
    w < 0xff := by
  obtain ⟨b, hb, rfl⟩ := List.mem_map.mp h
  rw [toUTF8_eq_flatMap] at hb
  obtain ⟨c, -, hc⟩ := List.mem_flatMap.mp hb
  exact toNat_lt_of_mem_utf8EncodeChar hc

/-- Lists without the word that ends them are told apart by what stands in front of it. -/
theorem append_cons_inj {ws ws' us us' : List Nat} {last : Nat} (hws : ∀ w ∈ ws, w < last)
    (hws' : ∀ w ∈ ws', w < last) (h : ws ++ last :: us = ws' ++ last :: us') : ws = ws' ∧ us = us' := by
  have hsplit : ∀ (ws us : List Nat), (∀ w ∈ ws, w < last) →
      (ws ++ last :: us).takeWhile (· < last) = ws := by
    intro ws us hlt
    rw [List.takeWhile_append_of_pos fun w hw => decide_eq_true (hlt w hw)]
    simp
  have hws : ws = ws' := by rw [← hsplit ws us hws, h, hsplit ws' us' hws']
  subst hws
  exact ⟨rfl, (List.cons.inj (List.append_cancel_left h)).2⟩

namespace Value

/-! ### Hash -/

theorem hashWords_ne_nil (x : Value) : x.hashWords ≠ [] := by
  cases x <;> simp [hashWords]

mutual

/-- The words of a value do not run on into what stands behind them, and tell its group. -/
theorem hashWords_append_inj : ∀ {x y : Value} {us vs : List Nat},
    x.hashWords ++ us = y.hashWords ++ vs → x.sameKey y = true ∧ us = vs
  | .null, y, us, vs, h => by
    cases y <;> simp [hashWords] at h
    exact ⟨rfl, h⟩
  | .boolean a, y, us, vs, h => by
    cases y <;> simp [hashWords] at h
    obtain ⟨hbit, hrest⟩ := h
    refine ⟨?_, hrest⟩
    have hab : ∀ a b : Bool, a.toNat = b.toNat → a = b := by decide
    rw [hab _ _ hbit]
    exact sameKey_refl _
  | .number x, y, us, vs, h => by
    cases y <;> simp [hashWords] at h
    exact ⟨beq_iff_eq.mpr h.1, h.2⟩
  | .string s, y, us, vs, h => by
    cases y with
    | string t =>
      rw [hashWords, hashWords, List.cons_append, List.cons_append, List.append_assoc,
        List.append_assoc] at h
      -- the word behind a text is none of its bytes
      obtain ⟨hbytes, hrest⟩ := append_cons_inj (fun _ => lt_of_mem_toUTF8)
        (fun _ => lt_of_mem_toUTF8) (List.cons.inj h).2
      have hdata := List.map_injective_iff.mpr (fun _ _ => UInt8.toNat_inj.mp) hbytes
      have hst : s = t := String.toByteArray_inj.mp (ByteArray.ext (Array.toList_inj.mp hdata))
      rw [hst]
      exact ⟨sameKey_refl _, hrest⟩
    | _ => simp [hashWords] at h
  | .list xs, y, us, vs, h => by
    cases y with
    | list ys =>
      rw [hashWords, hashWords, List.cons_append, List.cons_append, List.cons_append,
        List.cons_append] at h
      -- a list begins with its length
      obtain ⟨hlength, hwords⟩ := List.cons.inj (List.cons.inj h).2
      rw [sameKey]
      exact hashWordsAll_append_inj hlength hwords
    | _ => simp [hashWords] at h

theorem hashWordsAll_append_inj : ∀ {xs ys : List Value} {us vs : List Nat},
    xs.length = ys.length → hashWordsAll xs ++ us = hashWordsAll ys ++ vs →
      sameKeys xs ys = true ∧ us = vs
  | [], [], us, vs, _, h => ⟨rfl, h⟩
  | [], y :: ys, us, vs, hlength, h => by cases hlength
  | x :: xs, [], us, vs, hlength, h => by cases hlength
  | x :: xs, y :: ys, us, vs, hlength, h => by
    rw [hashWordsAll, hashWordsAll, List.append_assoc, List.append_assoc] at h
    obtain ⟨hhead, hrest⟩ := hashWords_append_inj h
    obtain ⟨htail, hend⟩ := hashWordsAll_append_inj (Nat.succ.inj hlength) hrest
    rw [sameKeys, hhead, htail]
    exact ⟨rfl, hend⟩

end

theorem sameKeys_of_hashWordsAll : ∀ {xs ys : List Value}, hashWordsAll xs = hashWordsAll ys →
    sameKeys xs ys = true
  | [], [], _ => rfl
  | [], y :: ys, h => absurd (List.append_eq_nil_iff.mp h.symm).1 (hashWords_ne_nil y)
  | x :: xs, [], h => absurd (List.append_eq_nil_iff.mp h).1 (hashWords_ne_nil x)
  | x :: xs, y :: ys, h => by
    obtain ⟨hhead, hrest⟩ := hashWords_append_inj h
    rw [sameKeys, hhead, sameKeys_of_hashWordsAll hrest]
    rfl

/-! ### The equality of conditions -/

/-- Values that equal one another fall into one group. -/
theorem sameKey_of_equal {x y : Value} (h : x.equal y = true) : x.sameKey y = true := by
  rw [sameKey_eq_sortCompare, sortCompare_of_equal h]
  rfl

mutual

/-- What equals nothing, not even itself, is in no value that equals one. -/
theorem isDefinite_of_equal : ∀ {x y : Value}, x.equal y = true → x.isDefinite = true
  | .null, y, h => by cases y <;> cases h
  | .boolean _, _, _ => rfl
  | .number x, y, h => by
    cases y with
    | number y =>
      rw [isDefinite, Bool.not_eq_true']
      refine Bool.eq_false_iff.mpr fun hx => ?_
      rw [equal, Number.equal_comm, Number.equal_of_notANumber hx] at h
      cases h
    | _ => cases h
  | .string _, _, _ => rfl
  | .list xs, y, h => by
    cases y with
    | list ys => exact areDefinite_of_equalAll h
    | _ => cases h

theorem areDefinite_of_equalAll : ∀ {xs ys : List Value}, equalAll xs ys = true →
    areDefinite xs = true
  | [], _, _ => rfl
  | x :: xs, [], h => by cases h
  | x :: xs, y :: ys, h => by
    rw [equalAll, Bool.and_eq_true] at h
    rw [areDefinite, isDefinite_of_equal h.1, areDefinite_of_equalAll h.2]
    rfl

end

theorem equal_trans {x y z : Value} (hxy : x.equal y = true) (hyz : y.equal z = true) :
    x.equal z = true := by
  rw [← sameKey_eq_equal (isDefinite_of_equal hxy), sameKey_congr (sameKey_of_equal hxy)]
  exact sameKey_of_equal hyz

/-- What a value equals equals itself. -/
theorem equal_self_of_equal {x y : Value} (h : x.equal y = true) : y.equal y = true :=
  equal_trans (by rwa [equal_comm]) h

/-- What equals itself equals all of its group. -/
theorem equal_of_sameKey {x y : Value} (hself : y.equal y = true) (h : x.sameKey y = true) :
    x.equal y = true := by
  rwa [equal_comm, ← sameKey_eq_equal (isDefinite_of_equal hself), sameKey_comm]

theorem equivalence_sameKeys : Equivalence fun xs ys => sameKeys xs ys = true where
  refl := sameKeys_refl
  symm h := by rwa [sameKeys_comm]
  trans h h' := by rwa [sameKeys_congr h]

/-- Values fall into one group if they stand together when sorted, and if a hash has the same words for them. Those
that equal one another do, and of definite values only those. So do tuples, and falling into one group is an
equivalence of tuples. -/
theorem sameKey_laws :
    (∀ x y : Value, x.sameKey y = true ↔ x.sortCompare y = .eq) ∧
    (∀ x y : Value, x.equal y = true → x.sameKey y = true) ∧
    (∀ x y : Value, x.isDefinite = true → y.isDefinite = true → x.equal y = x.sameKey y) ∧
    (∀ x y : Value, x.sameKey y = true ↔ x.hashWords = y.hashWords) ∧
    (Equivalence fun xs ys => sameKeys xs ys = true) ∧
    ∀ xs ys : List Value, sameKeys xs ys = true ↔ hashWordsAll xs = hashWordsAll ys := by
  refine ⟨fun x y => ?_, fun _ _ => sameKey_of_equal, fun x y hx _ => (sameKey_eq_equal hx y).symm,
    fun x y => ⟨hashWords_eq, fun h => ?_⟩, equivalence_sameKeys,
    fun xs ys => ⟨fun h => (hashWordsAll_eq h).2, sameKeys_of_hashWordsAll⟩⟩
  · rw [sameKey_eq_sortCompare, beq_iff_eq]
  · exact (hashWords_append_inj (congrArg (· ++ []) h)).1

/-- A list of a number equals itself, so it falls into one group with itself. -/
theorem sameKey_laws_list : (list [.ofNat 1]).equal (list [.ofNat 1]) = true ∧
    (list [.ofNat 1]).sameKey (list [.ofNat 1]) = true := by
  obtain ⟨-, hequal, hdefinite, -⟩ := sameKey_laws
  have hself : (list [.ofNat 1]).equal (list [.ofNat 1]) = true := by
    rw [hdefinite _ _ (by decide +kernel) (by decide +kernel)]
    exact sameKey_refl _
  exact ⟨hself, hequal _ _ hself⟩

/-- A value that is not definite falls into one group with itself, and need not equal itself. -/
example : (list [null]).sameKey (list [null]) = true ∧ (list [null]).equal (list [null]) = false :=
  ⟨rfl, rfl⟩

end Value

end TableQuery
