/-
Numbers written in decimals.

A finite number is a whole number of parts of a power of two, so finitely many decimals write it
exactly. `Number.decimals` is this numeral, and `Number.read?_decimals` says that it denotes the
number it was written from.

* `Number.ofRatio_eq_ofDyadic` — a ratio that is a binary number is not rounded;
* `Number.ofDyadic_significand` — a number is made of its significand and exponent;
* `Spelling.plain` — names between quotes and numbers in decimals.
-/
import Mathlib
import TableQuery.Proofs.Writing

namespace TableQuery.Number

/-! ### Bits -/

/-- The bits of a number without a minus sign are those of its exponent and of its fraction. -/
theorem toBits_eq {x : Float} (h : isNegative x = false) :
    x.toBits.toNat = exponentBits x * 4503599627370496 + fractionBits x := by
  have hbits : x.toBits.toNat < 9223372036854775808 := by
    have := of_decide_eq_false h
    rw [UInt64.le_iff_toNat_le] at this
    simpa using this
  rw [exponentBits, fractionBits, UInt64.toNat_mod, UInt64.toNat_div, UInt64.toNat_mod]
  simp only [UInt64.reduceToNat]
  omega

theorem fractionBits_lt (x : Float) : fractionBits x < 4503599627370496 := by
  rw [fractionBits, UInt64.toNat_mod]
  exact Nat.mod_lt _ (by decide)

theorem exponentBits_lt (x : Float) : exponentBits x < 2048 := by
  rw [exponentBits, UInt64.toNat_mod]
  exact Nat.mod_lt _ (by decide)

theorem significand_eq (x : Float) :
    significand x = if exponentBits x = 0 then fractionBits x
      else fractionBits x + 4503599627370496 := by
  rw [significand]
  split
  · rfl
  · have := fractionBits_lt x
    rw [fractionBits] at this ⊢
    rw [UInt64.toNat_add]
    simp only [UInt64.reduceToNat]
    omega

/-- A number is made of its significand and its exponent. -/
theorem ofDyadic_significand {x : Float} (h : IsLiteral x) :
    ofDyadic false (significand x) (exponent x) = x := by
  have hbits := toBits_eq h.2
  have hfraction := fractionBits_lt x
  -- nothing is shifted, for the leading bit is in its place or the exponent is the least one
  have hshift : min (52 - (significand x).log2) (exponent x + 1074).toNat = 0 := by
    rw [significand_eq, exponent]
    split
    · rw [Nat.min_eq_right (by simp)]
      simp
    · have hlog : (fractionBits x + 4503599627370496).log2 = 52 :=
        (Nat.log2_eq_iff (by omega)).mpr ⟨by omega, by omega⟩
      rw [hlog]
      simp
  rw [ofDyadic, hshift]
  simp only [Nat.shiftLeft_zero, Int.natCast_zero, Int.sub_zero, Bool.false_eq_true, if_false]
  have hmagnitude : (if significand x < twoTo 52 then significand x
      else (exponent x + 1075).toNat * twoTo 52 + (significand x - twoTo 52)) =
        x.toBits.toNat := by
    rw [significand_eq, exponent, hbits]
    by_cases he : exponentBits x = 0
    · simp only [he, if_true]
      rw [if_pos hfraction]
      omega
    · simp only [he, if_false]
      rw [if_neg (by show ¬ _ < 4503599627370496; omega)]
      show ((exponentBits x : Int) - 1075 + 1075).toNat * 4503599627370496 +
        (fractionBits x + 4503599627370496 - 4503599627370496) = _
      omega
  rw [hmagnitude, UInt64.ofNat_toNat, Float.ofBits_toBits]

/-! ### Exact ratios -/

theorem divideToEven_mul {m d : Nat} (hd : 0 < d) : divideToEven (m * d) d = m := by
  rw [divideToEven, Nat.mul_div_cancel m hd, Nat.mul_mod_left]
  simp [hd]

/-- The ratio is `m · 2 ^ q`. -/
def IsRatio (n d m : Nat) (q : Int) : Prop := n * twoTo (-q).toNat = m * (d * twoTo q.toNat)

/-- The significand has fifty-three bits, or the exponent is the least one. -/
def IsNormal (m : Nat) (q : Int) : Prop :=
  0 < m ∧ m < 2 ^ 53 ∧ (2 ^ 52 ≤ m ∧ -1074 ≤ q ∨ q = -1074)

variable {n d m : Nat} {q : Int}

/-- With a smaller exponent the significand is larger. -/
theorem IsRatio.pred (h : IsRatio n d m q) : IsRatio n d (2 * m) (q - 1) := by
  have hexponents : (-(q - 1)).toNat + q.toNat = 1 + (-q).toNat + (q - 1).toNat := by omega
  have hpowers := congrArg (2 ^ ·) hexponents
  simp only [Nat.pow_add, Nat.pow_one] at hpowers
  have hpos : 0 < 2 ^ q.toNat := Nat.pow_pos Nat.zero_lt_two
  simp only [IsRatio, Nat.pow_eq] at h ⊢
  refine Nat.eq_of_mul_eq_mul_right hpos ?_
  calc n * 2 ^ (-(q - 1)).toNat * 2 ^ q.toNat
      = n * (2 ^ (-(q - 1)).toNat * 2 ^ q.toNat) := Nat.mul_assoc _ _ _
    _ = n * 2 ^ (-q).toNat * (2 * 2 ^ (q - 1).toNat) := by
      rw [hpowers, Nat.mul_comm 2, Nat.mul_assoc, Nat.mul_assoc]
    _ = m * (d * 2 ^ q.toNat) * (2 * 2 ^ (q - 1).toNat) := by rw [h]
    _ = 2 * m * (d * 2 ^ (q - 1).toNat) * 2 ^ q.toNat := by
      ac_rfl

/-- The bits of both sides of a ratio are as many, but for one. -/
theorem IsRatio.log2_bounds (h : IsRatio n d m q) (hn : n ≠ 0) (hd : d ≠ 0) (hm : m ≠ 0) :
    (m.log2 + q : Int) ≤ n.log2 - d.log2 ∧ (n.log2 - d.log2 : Int) ≤ m.log2 + q + 1 := by
  simp only [IsRatio, Nat.pow_eq] at h
  have hpos : ∀ k, 0 < 2 ^ k := fun k => Nat.pow_pos Nat.zero_lt_two
  have hlow : 2 ^ (m.log2 + (d.log2 + q.toNat)) < 2 ^ (n.log2 + 1 + (-q).toNat) := by
    rw [Nat.pow_add 2 m.log2, Nat.pow_add 2 d.log2, Nat.pow_add 2 (n.log2 + 1)]
    calc 2 ^ m.log2 * (2 ^ d.log2 * 2 ^ q.toNat)
        ≤ m * (d * 2 ^ q.toNat) := Nat.mul_le_mul (Nat.log2_self_le hm)
          (Nat.mul_le_mul_right _ (Nat.log2_self_le hd))
      _ = n * 2 ^ (-q).toNat := h.symm
      _ < 2 ^ (n.log2 + 1) * 2 ^ (-q).toNat := Nat.mul_lt_mul_of_pos_right Nat.lt_log2_self (hpos _)
  have hhigh : 2 ^ (n.log2 + (-q).toNat) < 2 ^ (m.log2 + 1 + (d.log2 + 1 + q.toNat)) := by
    rw [Nat.pow_add 2 n.log2, Nat.pow_add 2 (m.log2 + 1), Nat.pow_add 2 (d.log2 + 1)]
    calc 2 ^ n.log2 * 2 ^ (-q).toNat
        ≤ n * 2 ^ (-q).toNat := Nat.mul_le_mul_right _ (Nat.log2_self_le hn)
      _ = m * (d * 2 ^ q.toNat) := h
      _ ≤ m * (2 ^ (d.log2 + 1) * 2 ^ q.toNat) :=
        Nat.mul_le_mul_left _ (Nat.mul_le_mul_right _ (Nat.le_of_lt Nat.lt_log2_self))
      _ < 2 ^ (m.log2 + 1) * (2 ^ (d.log2 + 1) * 2 ^ q.toNat) :=
        Nat.mul_lt_mul_of_pos_right Nat.lt_log2_self (Nat.mul_pos (hpos _) (hpos _))
  have := (Nat.pow_lt_pow_iff_right (by decide)).mp hlow
  have := (Nat.pow_lt_pow_iff_right (by decide)).mp hhigh
  omega

theorem IsRatio.ne_zero (h : IsRatio n d m q) (hd : d ≠ 0) (hm : m ≠ 0) : n ≠ 0 := by
  rintro rfl
  rw [IsRatio, Nat.zero_mul] at h
  have hpos : 0 < twoTo q.toNat := Nat.pow_pos Nat.zero_lt_two
  have := Nat.mul_pos (Nat.pos_of_ne_zero hm) (Nat.mul_pos (Nat.pos_of_ne_zero hd) hpos)
  omega

theorem ratioExponent_eq (hd : d ≠ 0) (hm : IsNormal m q) (h : IsRatio n d m q) :
    ratioExponent n d = q := by
  obtain ⟨hpos, hlt, hnormal⟩ := hm
  have hm : m ≠ 0 := Nat.ne_of_gt hpos
  obtain ⟨hlow, hhigh⟩ := h.log2_bounds (h.ne_zero hd hm) hd hm
  have hlog : m.log2 < 53 := (Nat.log2_lt hm).mpr hlt
  -- the guess is the exponent, or one less
  have hguess : max ((n.log2 : Int) - d.log2 - 53) (-1074) = q ∨
      max ((n.log2 : Int) - d.log2 - 53) (-1074) = q - 1 ∧ 2 ^ 52 ≤ m := by
    obtain ⟨hle, hq⟩ | hq := hnormal
    · have : ¬ m.log2 < 52 := fun h => absurd ((Nat.log2_lt hm).mp h) (Nat.not_lt.mpr hle)
      omega
    · omega
  have hpos : ∀ k : Nat, 0 < d * twoTo k :=
    fun k => Nat.mul_pos (Nat.pos_of_ne_zero hd) (Nat.pow_pos Nat.zero_lt_two)
  rw [ratioExponent]
  obtain hguess | ⟨hguess, hle⟩ := hguess
  · have hfits : n * twoTo (-q).toNat < twoTo 53 * (d * twoTo q.toNat) := by
      rw [show n * twoTo (-q).toNat = m * (d * twoTo q.toNat) from h]
      exact Nat.mul_lt_mul_of_pos_right hlt (hpos _)
    simp only [hguess]
    exact if_pos hfits
  · have hfits : ¬ n * twoTo (-(q - 1)).toNat < twoTo 53 * (d * twoTo (q - 1).toNat) := by
      rw [show n * twoTo (-(q - 1)).toNat = 2 * m * (d * twoTo (q - 1).toNat) from h.pred]
      refine Nat.not_lt.mpr (Nat.mul_le_mul_right _ ?_)
      calc twoTo 53 = 2 * 2 ^ 52 := rfl
        _ ≤ 2 * m := Nat.mul_le_mul_left 2 hle
    simp only [hguess]
    rw [if_neg hfits]
    omega

/-- A ratio that is a binary number is not rounded. -/
theorem ofRatio_eq_ofDyadic (hd : d ≠ 0) (hm : IsNormal m q) (hq : q ≤ 971)
    (h : IsRatio n d m q) : ofRatio n d = ofDyadic false m q := by
  have hpos : 0 < d * twoTo q.toNat :=
    Nat.mul_pos (Nat.pos_of_ne_zero hd) (Nat.pow_pos Nat.zero_lt_two)
  rw [ofRatio, if_neg (h.ne_zero hd (Nat.ne_of_gt hm.1))]
  simp only [ratioExponent_eq hd hm h]
  rw [if_neg (by omega), show n * twoTo (-q).toNat = m * (d * twoTo q.toNat) from h,
    divideToEven_mul hpos]

/-! ### Decimals -/

/-- The last `k` decimal digits of a count. -/
def lastDigits : Nat → Nat → List Char
  | 0, _ => []
  | k + 1, v => lastDigits k (v / 10) ++ [Nat.digitChar (v % 10)]

/-- A finite number without a minus sign in decimals; a zero stands at the end. -/
def decimals (x : Float) : String :=
  let k := (-exponent x).toNat
  let n := significand x * 2 ^ (exponent x).toNat
  String.ofList (Nat.toDigits 10 (n / 2 ^ k) ++ '.' :: lastDigits (k + 1) (n % 2 ^ k * 5 ^ k * 10))

theorem digitChar_spec : ∀ i < 10,
    (Nat.digitChar i).isDigit = true ∧ (Nat.digitChar i).toNat - '0'.toNat = i := by
  decide

theorem length_lastDigits (k v : Nat) : (lastDigits k v).length = k := by
  induction k generalizing v with
  | zero => rfl
  | succ k ih => rw [lastDigits, List.length_append, ih, List.length_singleton]

theorem isDigit_of_mem_lastDigits {c : Char} (k v : Nat) (hc : c ∈ lastDigits k v) :
    c.isDigit = true := by
  induction k generalizing v with
  | zero => cases hc
  | succ k ih =>
    rw [lastDigits, List.mem_append, List.mem_singleton] at hc
    obtain hc | rfl := hc
    · exact ih _ hc
    · exact (digitChar_spec _ (Nat.mod_lt v (by decide))).1

theorem ofDigitChars_lastDigits (k v : Nat) :
    Nat.ofDigitChars 10 (lastDigits k v) 0 = v % 10 ^ k := by
  induction k generalizing v with
  | zero => rw [lastDigits, Nat.ofDigitChars_nil, Nat.pow_zero, Nat.mod_one]
  | succ k ih =>
    rw [lastDigits, Nat.ofDigitChars_append, ih, Nat.ofDigitChars_cons, Nat.ofDigitChars_nil,
      (digitChar_spec _ (Nat.mod_lt v (by decide))).2, Nat.pow_succ, Nat.mul_comm (10 ^ k),
      Nat.mod_mul]
    omega

/-- Digits, a point and digits are the decimal that all these digits make. -/
theorem read?_of_digits {whole fraction : List Char} (hne : whole ≠ [])
    (hwhole : ∀ c ∈ whole, c.isDigit = true) (hfraction : ∀ c ∈ fraction, c.isDigit = true) :
    read? (whole ++ '.' :: fraction) =
      some (ofDecimal (digitsValue (whole ++ fraction)) (-fraction.length)) := by
  -- the point stands in no word for a number
  have hword : ∀ word : String, '.' ∉ word.toList →
      String.ofList ((whole ++ '.' :: fraction).map Char.toLower) ≠ word := by
    rintro word hword rfl
    refine hword ?_
    rw [String.toList_ofList, List.map_append, List.map_cons]
    exact List.mem_append_right _ List.mem_cons_self
  have hmagnitude : readMagnitude? (whole ++ '.' :: fraction) =
      some (ofDecimal (digitsValue (whole ++ fraction)) (-fraction.length)) := by
    have hpoint : Char.isDigit '.' = false := by decide
    have htake : (whole ++ '.' :: fraction).takeWhile Char.isDigit = whole := by
      rw [List.takeWhile_append_of_pos hwhole, List.takeWhile_cons_of_neg (by rw [hpoint]; decide),
        List.append_nil]
    have hdrop : (whole ++ '.' :: fraction).dropWhile Char.isDigit = '.' :: fraction := by
      rw [List.dropWhile_append_of_pos hwhole, List.dropWhile_cons_of_neg (by rw [hpoint]; decide)]
    have hfractionTake : fraction.takeWhile Char.isDigit = fraction :=
      List.takeWhile_eq_self_iff.mpr hfraction
    have hfractionDrop : fraction.dropWhile Char.isDigit = [] :=
      List.dropWhile_eq_nil_iff.mpr hfraction
    rw [readMagnitude?]
    simp only [hword "inf" (by decide), hword "infinity" (by decide), hword "nan" (by decide),
      decide_false, Bool.or_self, Bool.false_eq_true, if_false, htake, hdrop, hfractionTake,
      hfractionDrop, List.isEmpty_eq_false_iff.mpr hne, Bool.false_and, readExponent?,
      Option.map_some, Int.zero_sub]
  obtain ⟨c, rest, rfl⟩ := List.exists_cons_of_ne_nil hne
  have hc := hwhole c List.mem_cons_self
  rw [List.cons_append] at hmagnitude ⊢
  unfold read?
  split
  · rename_i heq
    cases heq
    exact absurd hc (by decide)
  · rename_i heq
    cases heq
    exact absurd hc (by decide)
  · exact hmagnitude

/-- The digits on both sides of the point make the number of parts of a power of ten. -/
theorem digitsValue_decimals (n k : Nat) :
    digitsValue (Nat.toDigits 10 (n / 2 ^ k) ++ lastDigits (k + 1) (n % 2 ^ k * 5 ^ k * 10)) =
      n * 5 ^ k * 10 := by
  have hten : 10 ^ k = 2 ^ k * 5 ^ k := by rw [← Nat.mul_pow]
  have hlt : n % 2 ^ k * 5 ^ k * 10 < 10 ^ (k + 1) := by
    rw [Nat.pow_succ, hten]
    exact Nat.mul_lt_mul_of_pos_right (Nat.mul_lt_mul_of_pos_right (Nat.mod_lt n (Nat.pow_pos (by
      decide))) (Nat.pow_pos (by decide))) (by decide)
  show Nat.ofDigitChars 10 _ 0 = _
  rw [Nat.ofDigitChars_append, Nat.ofDigitChars_ten_toDigits,
    Nat.ofDigitChars_eq_ofDigitChars_zero, length_lastDigits, ofDigitChars_lastDigits,
    Nat.mod_eq_of_lt hlt, Nat.pow_succ, hten]
  calc 2 ^ k * 5 ^ k * 10 * (n / 2 ^ k) + n % 2 ^ k * 5 ^ k * 10
      = (2 ^ k * (n / 2 ^ k) + n % 2 ^ k) * 5 ^ k * 10 := by ring
    _ = n * 5 ^ k * 10 := by rw [Nat.div_add_mod]

theorem pow_le_pow_of_mul {a b i j s t : Nat} (ha : 0 < a) (hb : 0 < b) (h : a ^ i ≤ b ^ j)
    (l : Nat) (hs : s ≤ i * l) (ht : j * l ≤ t) : a ^ s ≤ b ^ t :=
  calc a ^ s ≤ a ^ (i * l) := Nat.pow_le_pow_right ha hs
    _ ≤ b ^ (j * l) := by
      rw [Nat.pow_mul, Nat.pow_mul]
      exact Nat.pow_le_pow_left h l
    _ ≤ b ^ t := Nat.pow_le_pow_right hb ht

/-- Neither too many digits nor too few for a number of the format. -/
theorem size_bounds {m k j : Nat} (hm : 0 < m) (hlt : m < 2 ^ 53) (hk : k ≤ 1074) (hj : j ≤ 971) :
    (k : Int) - 329 ≤ (Nat.toDigits 10 (m * 2 ^ j * 5 ^ k * 10)).length ∧
      ((Nat.toDigits 10 (m * 2 ^ j * 5 ^ k * 10)).length : Int) ≤ k + 321 := by
  have hlength : ∀ {l}, 0 < l → ((Nat.toDigits 10 (m * 2 ^ j * 5 ^ k * 10)).length ≤ l ↔
      m * 2 ^ j * 5 ^ k * 10 < 10 ^ l) := fun hl => Nat.length_toDigits_le_iff (by decide) hl
  constructor
  · -- with fewer digits the number would be less than its power of five
    by_contra h
    have hk' : 330 ≤ k := by omega
    obtain ⟨i, rfl⟩ := Nat.exists_eq_add_of_le hk'
    have hle : (Nat.toDigits 10 (m * 2 ^ j * 5 ^ (330 + i) * 10)).length ≤ i := by omega
    have hpos : 0 < i := Nat.lt_of_lt_of_le Nat.length_toDigits_pos hle
    have hfive : 2 ^ i ≤ 5 ^ 330 :=
      pow_le_pow_of_mul (by decide) (by decide) (show 2 ^ 16 ≤ 5 ^ 7 by decide) 47 (by omega)
        (by decide)
    have hsplit : ∀ l, 5 ^ l * 5 ^ i = 5 ^ (l + i) := fun l => (Nat.pow_add 5 l i).symm
    have hge : 10 ^ i ≤ m * 2 ^ j * 5 ^ (330 + i) * 10 :=
      calc 10 ^ i = 2 ^ i * 5 ^ i := by rw [← Nat.mul_pow]
        _ ≤ 5 ^ 330 * 5 ^ i := Nat.mul_le_mul_right _ hfive
        _ = 5 ^ (330 + i) := hsplit 330
        _ ≤ m * 2 ^ j * 5 ^ (330 + i) :=
          Nat.le_mul_of_pos_left _ (Nat.mul_pos hm (Nat.pow_pos (by decide)))
        _ ≤ m * 2 ^ j * 5 ^ (330 + i) * 10 := Nat.le_mul_of_pos_right _ (by decide)
    exact absurd ((hlength hpos).mp hle) (Nat.not_lt.mpr hge)
  · have hpower : m * 2 ^ j ≤ 10 ^ 316 :=
      calc m * 2 ^ j ≤ 2 ^ 53 * 2 ^ j := Nat.mul_le_mul_right _ (Nat.le_of_lt hlt)
        _ = 2 ^ (53 + j) := (Nat.pow_add 2 53 j).symm
        _ ≤ 10 ^ 316 := pow_le_pow_of_mul (by decide) (by decide)
          (show 2 ^ 13 ≤ 10 ^ 4 by decide) 79 (by omega) (by decide)
    have hbound : m * 2 ^ j * 5 ^ k * 10 < 10 ^ (k + 321) :=
      calc m * 2 ^ j * 5 ^ k * 10 ≤ 10 ^ 316 * 10 ^ k * 10 ^ 1 :=
            Nat.mul_le_mul_right _ (Nat.mul_le_mul hpower (Nat.pow_le_pow_left (by decide) k))
        _ = 10 ^ (316 + k + 1) := by rw [Nat.pow_add, Nat.pow_add]
        _ < 10 ^ (k + 321) := Nat.pow_lt_pow_right (by decide) (by omega)
    have := (hlength (Nat.succ_pos _)).mpr hbound
    omega

theorem isRatio_decimals (m : Nat) (q : Int) :
    IsRatio (m * 2 ^ q.toNat * 5 ^ (-q).toNat * 10) (10 ^ ((-q).toNat + 1)) m q := by
  have hten : 10 ^ (-q).toNat = 2 ^ (-q).toNat * 5 ^ (-q).toNat := by rw [← Nat.mul_pow]
  simp only [IsRatio, Nat.pow_eq, Nat.pow_succ, hten]
  ring

/-- The significand of a number has fifty-three bits, or its exponent is the least one. -/
theorem isNormal_significand {x : Float} (hm : significand x ≠ 0) :
    IsNormal (significand x) (exponent x) := by
  have hfraction := fractionBits_lt x
  refine ⟨Nat.pos_of_ne_zero hm, ?_, ?_⟩
  · show _ < 9007199254740992
    rw [significand_eq]
    split <;> omega
  · show 4503599627370496 ≤ _ ∧ _ ∨ _
    rw [significand_eq, exponent]
    split <;> omega

/-- A decimal that is a number of the format is not rounded. -/
theorem ofDecimal_eq_ofDyadic {m : Nat} {q : Int} (hm : IsNormal m q) (hq : -1074 ≤ q ∧ q ≤ 971) :
    ofDecimal (m * 2 ^ q.toNat * 5 ^ (-q).toNat * 10) (-((-q).toNat + 1 : Nat)) =
      ofDyadic false m q := by
  have hpos : m * 2 ^ q.toNat * 5 ^ (-q).toNat * 10 ≠ 0 := by
    have := hm.1
    positivity
  have hbounds := size_bounds (k := (-q).toNat) (j := q.toNat) hm.1 hm.2.1 (by omega) (by omega)
  have hwhole : (-(((-q).toNat + 1 : Nat) : Int)).toNat = 0 := by omega
  have hfraction : (-(-(((-q).toNat + 1 : Nat) : Int))).toNat = (-q).toNat + 1 := by omega
  have hratio := isRatio_decimals m q
  generalize m * 2 ^ q.toNat * 5 ^ (-q).toNat * 10 = n at hpos hbounds hratio
  rw [ofDecimal, Nat.toString_eq_ofList_toDigits, String.length_ofList]
  simp only [hpos, decide_false, Bool.false_or, decide_eq_true_eq, hwhole, hfraction]
  rw [if_neg (by omega), if_neg (by omega), show tenTo 0 = 1 from rfl, Nat.mul_one]
  exact ofRatio_eq_ofDyadic (Nat.pos_iff_ne_zero.mp (Nat.pow_pos (by decide))) hm hq.2 hratio

theorem ofDyadic_zero (q : Int) : ofDyadic false 0 q = ofRatio 0 1 := by
  simp [ofDyadic, ofRatio]

/-- The decimals of a number are read as the number. -/
theorem read?_decimals {x : Float} (h : IsLiteral x) : read? (decimals x).toList = some x := by
  have hx := ofDyadic_significand h
  have hexponent : -1074 ≤ exponent x ∧ exponent x ≤ 971 := by
    have := exponentBits_lt x
    have := h.1
    rw [exponent]
    split <;> omega
  have hvalue : ofDecimal (significand x * 2 ^ (exponent x).toNat * 5 ^ (-exponent x).toNat * 10)
      (-((-exponent x).toNat + 1 : Nat)) = x := by
    by_cases hm : significand x = 0
    · rw [hm, Nat.zero_mul, Nat.zero_mul, Nat.zero_mul, ofDecimal]
      simp only [decide_true, Bool.true_or, if_true]
      rw [← ofDyadic_zero (exponent x), ← hm, hx]
    · rw [ofDecimal_eq_ofDyadic (isNormal_significand hm) hexponent, hx]
  rw [decimals, String.toList_ofList, read?_of_digits Nat.toDigits_ne_nil
    (fun c hc => Nat.isDigit_of_mem_toDigits (by decide) (by decide) hc)
    (fun c hc => isDigit_of_mem_lastDigits _ _ hc), digitsValue_decimals, length_lastDigits, hvalue]

end TableQuery.Number

namespace TableQuery

/-- Names between quotes, and numbers in decimals. -/
def Spelling.plain : Spelling where
  name := .quoted
  digits := Number.decimals
  name?_name _ := rfl
  read?_digits _ := Number.read?_decimals

end TableQuery
