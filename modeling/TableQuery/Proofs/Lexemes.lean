/-
Tokens as they are written.

A keyword is written in any letter case, a name as it is or between quotes, and a text between quotes
with its own quotes and backslashes escaped. Blanks separate tokens, and comments that end with their
line may follow a blank.

* `Token.Lexeme` — the ways of writing a token; `Token.isWritable_iff` says which tokens have one;
* `Token.Written` — the ways of writing tokens one after the other;
* `Token.Lexeme.reads` — in front of a blank, or of nothing, what is written is read as its token and
  no further;
* `Token.scan_written` — so tokens are read back as they were written.
-/
import TableQuery.Token.Lexer

namespace TableQuery

/-! ### Characters -/

/-- The code points of a set. -/
def Text.Ranges.codePoints (ranges : Ranges) : List Nat :=
  ranges.flatMap fun range => List.range' range.1 (range.2 + 1 - range.1)

theorem Text.Ranges.mem_codePoints {ranges : Ranges} {n : Nat} (h : ranges.holds n = true) :
    n ∈ ranges.codePoints := by
  induction ranges with
  | nil => cases h
  | cons range rest ih =>
    obtain ⟨first, last⟩ := range
    rw [codePoints, List.flatMap_cons, List.mem_append]
    rw [holds] at h
    split at h
    · cases h
    · rcases Bool.or_eq_true_iff.mp h with hlast | hrest
      · have hle : n ≤ last := of_decide_eq_true hlast
        exact .inl (List.mem_range'_1.mpr ⟨by omega, by dsimp only; omega⟩)
      · exact .inr (ih hrest)

namespace Token

theorem continuesName_of_startsName {c : Char} (h : startsName c = true) :
    continuesName c = true := by
  rw [startsName, Bool.or_eq_true] at h
  rw [continuesName, Bool.or_eq_true, Bool.or_eq_true]
  exact h.imp_left .inl

/-- No blank is a part of a name. -/
theorem continuesName_of_isBlank {c : Char} (h : Text.isBlank c = true) :
    continuesName c = false := by
  have hnone : ∀ n ∈ Text.blankRanges.codePoints, (Text.letterRanges.holds n ||
      Text.numeralRanges.holds n) = false ∧ n ≠ '_'.toNat := by decide +kernel
  obtain ⟨hname, hunderscore⟩ := hnone c.toNat (Text.Ranges.mem_codePoints h)
  rw [continuesName, Bool.or_eq_false_iff]
  refine ⟨hname, beq_eq_false_iff_ne.mpr ?_⟩
  rintro rfl
  exact hunderscore rfl

theorem isBlank_of_continuesName {c : Char} (h : continuesName c = true) :
    Text.isBlank c = false := by
  cases hblank : Text.isBlank c with
  | false => rfl
  | true => rw [continuesName_of_isBlank hblank] at h; cases h

/-- A digit is neither a blank nor a letter. -/
theorem class_of_isDigit {c : Char} (h : c.isDigit = true) :
    Text.isBlank c = false ∧ startsName c = false := by
  have hdigits : ∀ n ∈ List.range' 48 10, Text.blankRanges.holds n = false ∧
      Text.letterRanges.holds n = false ∧ n ≠ '_'.toNat := by decide +kernel
  have hmem : c.toNat ∈ List.range' 48 10 := by
    simp only [Char.isDigit, Bool.and_eq_true, decide_eq_true_eq, ge_iff_le,
      UInt32.le_iff_toNat_le] at h
    exact List.mem_range'_1.mpr ⟨h.1, Nat.lt_succ_of_le h.2⟩
  obtain ⟨hblank, hletter, hunderscore⟩ := hdigits c.toNat hmem
  refine ⟨hblank, Bool.or_eq_false_iff.mpr ⟨hletter, beq_eq_false_iff_ne.mpr ?_⟩⟩
  rintro rfl
  exact hunderscore rfl

end Token

/-! ### Lexemes -/

/-- The ways of writing an operator or a delimiter. -/
def Sign.lexemes : Sign → List (List Char)
  | plus => [['+']]
  | minus => [['-']]
  | star => [['*']]
  | slash => [['/']]
  | percent => [['%']]
  | equal => [['=']]
  | notEqual => [['<', '>'], ['!', '=']]
  | less => [['<']]
  | greater => [['>']]
  | lessEqual => [['<', '=']]
  | greaterEqual => [['>', '=']]
  | leftParen => [['(']]
  | rightParen => [[')']]
  | leftBracket => [['[']]
  | rightBracket => [[']']]
  | comma => [[',']]
  | semicolon => [[';']]
  | dot => [['.']]

namespace Token

/-- A word starts like a name and goes on like one. -/
structure IsWord (word : List Char) : Prop where
  starts : ∃ c ∈ word.head?, startsName c = true
  continues : ∀ c ∈ word, continuesName c = true

/-- A name that needs no quotes is a word, but no keyword. -/
structure IsName (word : List Char) : Prop extends IsWord word where
  notKeyword : Keyword.ofWord? word = none

/-- A name as it is written between quotes, with every quote in it written twice. -/
def doubled (quote : Char) (name : List Char) : List Char :=
  name.flatMap fun c => if c = quote then [c, c] else [c]

/-- The ways of writing a text between its quotes. A quote in it is written twice or, like a
backslash, behind a backslash; there some letters stand for characters that are not shown. -/
inductive Escaped : List Char → List Char → Prop
  | nil : Escaped [] []
  | plain {c : Char} {text written : List Char} : c ≠ '\x27' → c ≠ '\\' → Escaped text written →
      Escaped (c :: text) (c :: written)
  | doubled {text written : List Char} : Escaped text written →
      Escaped ('\x27' :: text) ('\x27' :: '\x27' :: written)
  | behind (c : Char) {text written : List Char} : Escaped text written →
      Escaped (unescape c :: text) ('\\' :: c :: written)

/-- Digits, at least one. -/
def AreDigits (text : List Char) : Prop := text ≠ [] ∧ ∀ c ∈ text, c.isDigit = true

/-- Digits, and perhaps a point and digits behind it. -/
def IsNumeral (text : List Char) : Prop :=
  AreDigits text ∨ ∃ whole fraction, AreDigits whole ∧ AreDigits fraction ∧
    text = whole ++ '.' :: fraction

/-- The ways of writing a token. -/
inductive Lexeme : Token → List Char → Prop
  | keyword {k : Keyword} {word : List Char} : word.map Char.toUpper = k.capitals →
      Lexeme (keyword k) word
  | identifier {name : String} : IsName name.toList → Lexeme (identifier name) name.toList
  | quoted {quote : Char} (name : String) : quote = '\x60' ∨ quote = '\x22' →
      Lexeme (quoted name) (quote :: (doubled quote name.toList ++ [quote]))
  | string {text : String} {written : List Char} : Escaped text.toList written →
      Lexeme (string text) ('\x27' :: (written ++ ['\x27']))
  | number {digits : String} : IsNumeral digits.toList → Lexeme (number digits) digits.toList
  | sign {s : Sign} {text : List Char} : text ∈ s.lexemes → Lexeme (sign s) text

/-- The token can be written: an identifier is a name, and a number a numeral. -/
def IsWritable : Token → Prop
  | identifier name => IsName name.toList
  | number digits => IsNumeral digits.toList
  | unknown _ | eof => False
  | quoted _ | string _ | keyword _ | sign _ => True

theorem exists_escaped (text : List Char) : ∃ written, Escaped text written := by
  induction text with
  | nil => exact ⟨[], .nil⟩
  | cons c text ih =>
    obtain ⟨written, h⟩ := ih
    by_cases hquote : c = '\x27'
    · exact ⟨_, hquote ▸ h.doubled⟩
    by_cases hbackslash : c = '\\'
    · subst hbackslash
      exact ⟨_, .behind '\\' h⟩
    · exact ⟨_, h.plain hquote hbackslash⟩

/-- Exactly the tokens that can be written have a lexeme. -/
theorem isWritable_iff {t : Token} : t.IsWritable ↔ ∃ text, Lexeme t text := by
  constructor
  · intro h
    cases t with
    | identifier name => exact ⟨_, .identifier h⟩
    | quoted name => exact ⟨_, .quoted name (.inl rfl)⟩
    | number digits => exact ⟨_, .number h⟩
    | string text =>
      obtain ⟨written, hwritten⟩ := exists_escaped text.toList
      exact ⟨_, .string hwritten⟩
    | keyword k => exact ⟨k.name.toList, .keyword rfl⟩
    | sign s =>
      have hs : s.lexemes ≠ [] := by cases s <;> exact List.cons_ne_nil _ _
      obtain ⟨text, htext⟩ := List.exists_mem_of_ne_nil _ hs
      exact ⟨text, .sign htext⟩
    | unknown c => exact h.elim
    | eof => exact h.elim
  · rintro ⟨text, h⟩
    cases h with
    | identifier h => exact h
    | number h => exact h
    | _ => trivial

/-! ### Reading a lexeme -/

/-- A blank comes next, or nothing does. -/
def StartsBlank (rest : List Char) : Prop := ∀ c ∈ rest.head?, Text.isBlank c = true

/-- The text is no blank and no comment, and in front of `rest` it is read as the token and no
further. -/
def Reads (t : Token) (text rest : List Char) : Prop :=
  ∃ c tail, text = c :: tail ∧ skip false (text ++ rest) = text ++ rest ∧
    ∀ position, read position c (tail ++ rest) = .ok (t, rest)

section

variable {t : Token} {c quote : Char} {word tail rest : List Char} {p : Char → Bool}

theorem skip_cons (hblank : Text.isBlank c = false) (hcomment : c = '-' → rest.head? ≠ some '-') :
    skip false (c :: rest) = c :: rest := by
  have hnot : ¬(c = '-' ∧ rest.head? = some '-') := fun h => hcomment h.1 h.2
  simp [skip, hblank, hnot]

theorem Reads.of_cons (hblank : Text.isBlank c = false) (hminus : c ≠ '-')
    (h : ∀ position, read position c (tail ++ rest) = .ok (t, rest)) : Reads t (c :: tail) rest :=
  ⟨c, tail, rfl, skip_cons hblank fun hc => absurd hc hminus, h⟩

/-- What comes behind a token does not start with a character of another kind. -/
theorem StartsBlank.head_ne (h : StartsBlank rest) (hc : Text.isBlank c = false) : rest.head? ≠ some c := by
  intro hhead
  rw [h c hhead] at hc
  cases hc

/-- Characters of one kind are taken up to the end of a token, and no further. -/
theorem span_of_ends (hword : ∀ c ∈ word, p c = true) (hrest : ∀ c ∈ rest.head?, p c = false) :
    (word ++ rest).takeWhile p = word ∧ (word ++ rest).dropWhile p = rest := by
  rw [List.takeWhile_append_of_pos hword, List.dropWhile_append_of_pos hword]
  cases rest with
  | nil => simp
  | cons c rest =>
    have hc : p c = false := hrest c rfl
    simp [hc]

/-- A word is read up to its end. -/
theorem reads_word (hword : IsWord word) (hrest : StartsBlank rest) : Reads (ofWord word) word rest := by
  obtain ⟨⟨c, hc, hstarts⟩, hcontinues⟩ := hword
  obtain ⟨tail, rfl⟩ := List.head?_eq_some_iff.mp hc
  have hne : ∀ d, startsName d = false → c ≠ d := fun d hd => by
    rintro rfl
    rw [hstarts] at hd
    cases hd
  have hspan := span_of_ends (fun d hd => hcontinues d (List.mem_cons_of_mem c hd)) fun d hd =>
    continuesName_of_isBlank (hrest d hd)
  refine .of_cons (isBlank_of_continuesName (continuesName_of_startsName hstarts))
    (hne '-' (by decide +kernel)) fun position => ?_
  rw [read, if_neg (hne '\x27' (by decide +kernel)), if_neg, if_pos hstarts, hspan.1, hspan.2]
  rintro (h | h)
  · exact hne '\x60' (by decide +kernel) h
  · exact hne '\x22' (by decide +kernel) h

/-- A character with a capital of ASCII for its upper form is a letter of ASCII. -/
theorem letter_of_toUpper (h : 'A' ≤ c.toUpper ∧ c.toUpper ≤ 'Z') :
    c.toNat < 128 ∧ Text.isLetter c = true := by
  have hletters : ∀ n ∈ List.range' 65 26 ++ List.range' 97 26, n < 128 ∧
      Text.letterRanges.holds n = true := by decide +kernel
  refine hletters c.toNat (List.mem_append.mpr ?_)
  unfold Char.toUpper at h
  split at h
  · next hlower =>
    simp only [UInt32.le_iff_toNat_le] at hlower
    exact .inr (List.mem_range'_1.mpr ⟨hlower.1, Nat.lt_succ_of_le hlower.2⟩)
  · simp only [Char.le_def, UInt32.le_iff_toNat_le] at h
    exact .inl (List.mem_range'_1.mpr ⟨h.1, Nat.lt_succ_of_le h.2⟩)

theorem asciiUppercase?_eq_map (h : ∀ c ∈ word, c.toNat < 128) :
    Text.asciiUppercase? word = some (word.map Char.toUpper) := by
  induction word with
  | nil => rfl
  | cons c word ih =>
    have hc : Text.asciiUpper? c = some [c.toUpper] := if_pos (h c List.mem_cons_self)
    have htail := ih fun d hd => h d (List.mem_cons_of_mem c hd)
    rw [Text.asciiUppercase?, Option.map_eq_some_iff] at htail ⊢
    obtain ⟨parts, hparts, hflat⟩ := htail
    refine ⟨[c.toUpper] :: parts, ?_, ?_⟩
    · rw [List.mapM_cons, hc, hparts]
      rfl
    · rw [List.flatten_cons, hflat]
      rfl

/-- A keyword is a word in every letter case. -/
theorem ofWord_of_capitals {k : Keyword} (h : word.map Char.toUpper = k.capitals) :
    IsWord word ∧ ofWord word = keyword k := by
  have hcapitals : k.capitals ≠ [] ∧ k.capitals.all (fun c => 'A' ≤ c ∧ c ≤ 'Z') = true := by
    cases k <;> decide +kernel
  have hletters : ∀ c ∈ word, c.toNat < 128 ∧ Text.isLetter c = true := fun c hc =>
    letter_of_toUpper <| of_decide_eq_true <|
      List.all_eq_true.mp hcapitals.2 c.toUpper (h ▸ List.mem_map_of_mem hc)
  have hstarts : ∀ c ∈ word, startsName c = true := fun c hc => by
    rw [startsName, (hletters c hc).2, Bool.true_or]
  have hfind : Keyword.every.find? (fun k' => k'.capitals == k.capitals) = some k := by
    cases k <;> decide +kernel
  refine ⟨⟨?_, fun c hc => continuesName_of_startsName (hstarts c hc)⟩, ?_⟩
  · cases word with
    | nil => exact absurd h.symm hcapitals.1
    | cons c tail => exact ⟨c, rfl, hstarts c List.mem_cons_self⟩
  · rw [ofWord, Keyword.ofWord?, asciiUppercase?_eq_map fun c hc => (hletters c hc).1, h]
    dsimp only
    rw [hfind]

theorem readQuoted_doubled (name : List Char) (hrest : rest.head? ≠ some quote) :
    readQuoted quote (doubled quote name ++ quote :: rest) = some (name, rest) := by
  induction name with
  | nil =>
    cases rest with
    | nil => simp [doubled, readQuoted]
    | cons d rest =>
      have hd : d ≠ quote := fun h => hrest (congrArg some h)
      simp [doubled, readQuoted, hd]
  | cons c name ih =>
    rw [doubled, List.flatMap_cons, ← doubled]
    by_cases hc : c = quote
    · subst hc
      simp [readQuoted, ih, prepend]
    · rw [if_neg hc, List.append_assoc]
      cases hnext : doubled quote name ++ quote :: rest with
      | nil => simp at hnext
      | cons d next =>
        rw [hnext] at ih
        simp [readQuoted, hc, ih, prepend]

theorem reads_quoted (name : String) (hquote : quote = '\x60' ∨ quote = '\x22')
    (hrest : StartsBlank rest) :
    Reads (quoted name) (quote :: (doubled quote name.toList ++ [quote])) rest := by
  have hclass : Text.isBlank quote = false ∧ quote ≠ '-' ∧ quote ≠ '\x27' := by
    rcases hquote with rfl | rfl <;> decide +kernel
  refine .of_cons hclass.1 hclass.2.1 fun position => ?_
  rw [read, if_neg hclass.2.2, if_pos hquote, List.append_assoc, List.singleton_append,
    readQuoted_doubled _ (hrest.head_ne hclass.1)]
  exact congrArg (fun n => Except.ok (quoted n, rest)) String.ofList_toList

theorem readString_escaped {text written : List Char} (h : Escaped text written)
    (hrest : rest.head? ≠ some '\x27') :
    readString (written ++ '\x27' :: rest) = some (text, rest) := by
  induction h with
  | nil =>
    cases rest with
    | nil => rfl
    | cons d rest =>
      have hd : d ≠ '\x27' := fun h => hrest (congrArg some h)
      simp [readString, hd]
  | @plain c text written hquote hbackslash _ ih =>
    cases hnext : written ++ '\x27' :: rest with
    | nil => simp at hnext
    | cons d next =>
      rw [hnext] at ih
      simp [readString, hnext, hquote, hbackslash, ih, prepend]
  | doubled _ ih => simp [readString, ih, prepend]
  | behind c _ ih => simp [readString, ih, prepend]

theorem reads_string {text : String} {written : List Char} (h : Escaped text.toList written)
    (hrest : StartsBlank rest) : Reads (string text) ('\x27' :: (written ++ ['\x27'])) rest := by
  refine .of_cons (by decide +kernel) (by decide) fun position => ?_
  rw [read, if_pos rfl, List.append_assoc, List.singleton_append,
    readString_escaped h (hrest.head_ne (by decide +kernel))]
  exact congrArg (fun s => Except.ok (string s, rest)) String.ofList_toList

/-- A numeral is read up to its end. -/
theorem readNumber_of_isNumeral {digits : List Char} (h : IsNumeral digits) (hrest : StartsBlank rest) :
    readNumber (digits ++ rest) = (digits, rest) := by
  have hnot : ∀ c ∈ rest.head?, c.isDigit = false := by
    intro c hc
    cases hdigit : c.isDigit with
    | false => rfl
    | true =>
      have := hrest c hc
      rw [(class_of_isDigit hdigit).1] at this
      cases this
  rcases h with ⟨-, hdigits⟩ | ⟨whole, fraction, ⟨-, hwhole⟩, ⟨hne, hfraction⟩, rfl⟩
  · obtain ⟨htake, hdrop⟩ := span_of_ends hdigits hnot
    rw [readNumber, htake, hdrop]
    -- what comes behind is no point
    split
    · next d more =>
      have := hrest '.' rfl
      exact absurd this (by decide +kernel)
    · rfl
  · have hpoint : ∀ c, ('.' :: (fraction ++ rest)).head? = some c → c.isDigit = false := by
      intro c hc
      obtain rfl : '.' = c := Option.some.inj hc
      decide
    obtain ⟨htake, hdrop⟩ := span_of_ends hwhole hpoint
    obtain ⟨htake', hdrop'⟩ := span_of_ends hfraction hnot
    obtain ⟨d, more, rfl⟩ := List.exists_cons_of_ne_nil hne
    have hd : d.isDigit = true := hfraction d List.mem_cons_self
    rw [List.append_assoc, List.cons_append, readNumber, htake, hdrop]
    simp only [List.cons_append] at htake' hdrop' ⊢
    rw [if_pos hd, htake', hdrop']

theorem reads_number {digits : String} (h : IsNumeral digits.toList) (hrest : StartsBlank rest) :
    Reads (number digits) digits.toList rest := by
  obtain ⟨c, tail, hdigits, hc⟩ : ∃ c tail, digits.toList = c :: tail ∧ c.isDigit = true := by
    rcases h with ⟨hne, hall⟩ | ⟨whole, fraction, ⟨hne, hall⟩, -, heq⟩
    · obtain ⟨c, tail, hcons⟩ := List.exists_cons_of_ne_nil hne
      exact ⟨c, tail, hcons, hall c (hcons ▸ List.mem_cons_self)⟩
    · obtain ⟨c, tail, rfl⟩ := List.exists_cons_of_ne_nil hne
      exact ⟨c, tail ++ '.' :: fraction, heq, hall c List.mem_cons_self⟩
  have hread := readNumber_of_isNumeral h hrest
  have hne : ∀ d : Char, d.isDigit = false → c ≠ d := fun d hd => by
    rintro rfl
    rw [hc] at hd
    cases hd
  obtain ⟨hblank, hstarts⟩ := class_of_isDigit hc
  rw [hdigits] at hread ⊢
  refine .of_cons hblank (hne '-' (by decide)) fun position => ?_
  rw [read, if_neg (hne '\x27' (by decide)), if_neg, hstarts, if_neg (by decide), if_pos hc,
    ← List.cons_append, hread, ← hdigits, String.ofList_toList]
  rintro (h | h)
  · exact hne '\x60' (by decide) h
  · exact hne '\x22' (by decide) h

/-- A character that starts neither a name nor a number, and is no quote, is read as a sign. -/
theorem read_of_sign (hc : startsName c = false ∧ c.isDigit = false ∧ c ≠ '\x27' ∧ c ≠ '\x60' ∧
    c ≠ '\x22') (rest : List Char) (position : Nat) :
    read position c rest = .ok (readSign c rest) := by
  obtain ⟨hstarts, hdigit, hquotes⟩ := hc
  simp [read, hstarts, hdigit, hquotes]

/-- A sign of one character is read as that sign, unless it starts one of two characters. -/
theorem readSign_of_head {s : Sign} (hsign : sign? c = some s)
    (hequal : c = '<' ∨ c = '>' ∨ c = '!' → rest.head? ≠ some '=')
    (hgreater : c = '<' → rest.head? ≠ some '>') : readSign c rest = (sign s, rest) := by
  unfold readSign
  split
  · exact absurd rfl (hequal (.inl rfl))
  · exact absurd rfl (hgreater rfl)
  · exact absurd rfl (hequal (.inr (.inl rfl)))
  · exact absurd rfl (hequal (.inr (.inr rfl)))
  · rw [hsign]

theorem reads_sign {s : Sign} {text : List Char} (h : text ∈ s.lexemes) (hrest : StartsBlank rest) :
    Reads (sign s) text rest := by
  have hequal := hrest.head_ne (c := '=') (by decide +kernel)
  have hgreater := hrest.head_ne (c := '>') (by decide +kernel)
  have hhyphen := hrest.head_ne (c := '-') (by decide +kernel)
  have hsingle : ∀ {c}, sign? c = some s → c ≠ '-' → Text.isBlank c = false →
      startsName c = false ∧ c.isDigit = false ∧ c ≠ '\x27' ∧ c ≠ '\x60' ∧ c ≠ '\x22' →
      Reads (sign s) [c] rest := fun hsign hminus hblank hclass =>
    .of_cons hblank hminus fun position => by
      rw [read_of_sign hclass, List.nil_append, readSign_of_head hsign (fun _ => hequal) fun _ => hgreater]
  cases s <;> simp only [Sign.lexemes, List.mem_cons, List.not_mem_nil, or_false] at h
  case minus =>
    subst h
    refine ⟨'-', [], rfl, skip_cons (by decide +kernel) fun _ => hhyphen, fun position => ?_⟩
    exact read_of_sign (by decide +kernel) _ _
  case notEqual =>
    rcases h with rfl | rfl
    all_goals
      exact .of_cons (by decide +kernel) (by decide) fun _ => read_of_sign (by decide +kernel) _ _
  case lessEqual | greaterEqual =>
    subst h
    exact .of_cons (by decide +kernel) (by decide) fun _ => read_of_sign (by decide +kernel) _ _
  all_goals
    subst h
    exact hsingle rfl (by decide) (by decide +kernel) (by decide +kernel)

end

/-- A lexeme is read up to its end. -/
theorem Lexeme.reads {t : Token} {text rest : List Char} (h : Lexeme t text) (hrest : StartsBlank rest) :
    Reads t text rest := by
  cases h with
  | keyword h =>
    obtain ⟨hword, hkeyword⟩ := ofWord_of_capitals h
    exact hkeyword ▸ reads_word hword hrest
  | @identifier name h =>
    have hname : ofWord name.toList = Token.identifier name := by
      rw [ofWord, h.notKeyword]
      exact congrArg Token.identifier String.ofList_toList
    exact hname ▸ reads_word h.toIsWord hrest
  | quoted name hquote => exact reads_quoted name hquote hrest
  | string h => exact reads_string h hrest
  | number h => exact reads_number h hrest
  | sign h => exact reads_sign h hrest

/-! ### Whole texts -/

/-- Blanks, and comments that end with their line. -/
inductive Gap : List Char → Prop
  | nil : Gap []
  | blank {c : Char} {gap : List Char} : Text.isBlank c = true → Gap gap → Gap (c :: gap)
  | comment {text gap : List Char} : '\n' ∉ text → Gap gap → Gap ('-' :: '-' :: text ++ '\n' :: gap)

/-- The ways of writing tokens one after the other. Between two of them there is a gap that starts with
a blank, and there may be one behind the last. -/
inductive Written : List Token → List Char → Prop
  | nil : Written [] []
  | last {t : Token} {text : List Char} : Lexeme t text → Written [t] text
  | cons {t : Token} {ts : List Token} {text gap rest : List Char} {blank : Char} : Lexeme t text →
      Text.isBlank blank = true → Gap gap → Written ts rest →
      Written (t :: ts) (text ++ blank :: gap ++ rest)

theorem exists_written {ts : List Token} (h : ∀ t ∈ ts, t.IsWritable) : ∃ text, Written ts text := by
  induction ts with
  | nil => exact ⟨[], .nil⟩
  | cons t ts ih =>
    obtain ⟨text, htext⟩ := isWritable_iff.mp (h t List.mem_cons_self)
    obtain ⟨rest, hrest⟩ := ih fun u hu => h u (List.mem_cons_of_mem t hu)
    have hblank : Text.isBlank ' ' = true := by decide +kernel
    exact ⟨_, .cons htext hblank .nil hrest⟩

theorem skip_comment {text : List Char} (h : '\n' ∉ text) (rest : List Char) :
    skip true (text ++ '\n' :: rest) = skip false rest := by
  induction text with
  | nil => simp [skip]
  | cons c text ih =>
    obtain ⟨hc, htext⟩ := not_or.mp (mt List.mem_cons.mpr h)
    have hgoes : (c != '\n') = true := bne_iff_ne.mpr (Ne.symm hc)
    simp [skip, hgoes, ih htext]

/-- A gap is dropped. -/
theorem skip_gap {gap : List Char} (h : Gap gap) (rest : List Char) :
    skip false (gap ++ rest) = skip false rest := by
  induction h with
  | nil => rfl
  | blank hc _ ih => simp [skip, hc, ih]
  | comment htext _ ih =>
    have hhyphen : Text.isBlank '-' = false := by decide +kernel
    rw [← ih]
    simp [skip, hhyphen, skip_comment htext]

theorem scanFrom_of_nothing {length : Nat} {text : List Char} (h : skip false text = []) :
    scanFrom length text = .ok [eof] := by
  rw [scanFrom]
  split
  · rfl
  · next hcons =>
    rw [h] at hcons
    cases hcons

/-- What is read in front of other tokens is the first of the tokens. -/
theorem scanFrom_of_reads {length : Nat} {text lexeme rest : List Char} {t : Token}
    {ts : List Token} (htext : skip false text = lexeme ++ rest) (hlexeme : Reads t lexeme rest)
    (hrest : scanFrom length rest = .ok ts) : scanFrom length text = .ok (t :: ts) := by
  obtain ⟨c, tail, rfl, -, hread⟩ := hlexeme
  rw [scanFrom]
  split
  · next hnil =>
    rw [htext] at hnil
    cases hnil
  · next d more hcons =>
    rw [htext, List.cons_append] at hcons
    obtain ⟨rfl, rfl⟩ := List.cons.inj hcons
    split
    · next hr =>
      rw [hread] at hr
      cases hr
    · next hr =>
      rw [hread] at hr
      obtain ⟨rfl, rfl⟩ := Prod.mk.inj (Except.ok.inj hr)
      rw [hrest]

/-- Behind any gap tokens are read back as they were written. -/
theorem scanFrom_written {ts : List Token} {text : List Char} (h : Written ts text) (length : Nat)
    {gap : List Char} (hgap : Gap gap) : scanFrom length (gap ++ text) = .ok (ts ++ [eof]) := by
  induction h generalizing gap with
  | nil => exact scanFrom_of_nothing (skip_gap hgap [])
  | @last t text hlexeme =>
    have hreads : Reads t text [] := hlexeme.reads (by simp [StartsBlank])
    refine scanFrom_of_reads ?_ hreads (scanFrom_of_nothing rfl)
    obtain ⟨-, -, -, hskip, -⟩ := hreads
    rw [skip_gap hgap, ← hskip, List.append_nil]
  | @cons t ts text gap' rest blank hlexeme hblank hgap' _ ih =>
    have hreads : Reads t text (blank :: gap' ++ rest) := hlexeme.reads fun c hc =>
      Option.some.inj hc ▸ hblank
    refine scanFrom_of_reads ?_ hreads (ih (.blank hblank hgap'))
    obtain ⟨-, -, -, hskip, -⟩ := hreads
    rw [skip_gap hgap, List.append_assoc, hskip]

/-- Tokens that can be written are read back from every way of writing them, with `eof` at the end. -/
theorem scan_written {ts : List Token} (h : ∀ t ∈ ts, t.IsWritable) :
    (∃ text, Written ts text) ∧ ∀ gap text, Gap gap → Written ts text →
      scan (String.ofList (gap ++ text)) = .ok (ts ++ [eof]) := by
  refine ⟨exists_written h, fun gap text hgap htext => ?_⟩
  rw [scan, String.toList_ofList]
  exact scanFrom_written htext _ hgap

/-- Tokens of every kind that can be written. -/
def variousTokens : List Token :=
  [keyword .select, identifier "x", sign .comma, quoted "a\"b", sign .notEqual, string "it's\\",
    number "1.5"]

/-- The tokens written with a comment behind the keyword. -/
def variousText : List Char :=
  ['s', 'e', 'L', 'e', 'c', 't'] ++ ' ' :: ['-', '-', '\x22', '\n'] ++ ("x".toList ++ ' ' :: [] ++
    ([','] ++ '\n' :: [] ++ ('\x22' :: (doubled '\x22' "a\"b".toList ++ ['\x22']) ++ ' ' :: [] ++
      (['!', '='] ++ ' ' :: [] ++ ('\x27' :: (['i', 't', '\x27', '\x27', 's', '\\', '\\'] ++ ['\x27']) ++
        '\t' :: [] ++ "1.5".toList)))))

theorem scan_written_various : (∀ t ∈ variousTokens, t.IsWritable) ∧
    scan (String.ofList ([' '] ++ variousText)) = .ok (variousTokens ++ [eof]) := by
  have hname : IsName "x".toList :=
    ⟨⟨⟨'x', rfl, by decide +kernel⟩, List.all_eq_true.mp (by decide +kernel)⟩, by decide +kernel⟩
  have hnumeral : IsNumeral "1.5".toList :=
    .inr ⟨['1'], ['5'], ⟨List.cons_ne_nil _ _, List.forall_mem_singleton.mpr rfl⟩,
      ⟨List.cons_ne_nil _ _, List.forall_mem_singleton.mpr rfl⟩, by decide⟩
  have hwritable : ∀ t ∈ variousTokens, t.IsWritable := by
    simp only [variousTokens, List.forall_mem_cons]
    exact ⟨trivial, hname, trivial, trivial, trivial, trivial, hnumeral, nofun⟩
  have hescaped : Escaped "it's\\".toList ['i', 't', '\x27', '\x27', 's', '\\', '\\'] :=
    .plain (by decide) (by decide) <| .plain (by decide) (by decide) <| .doubled <|
      .plain (by decide) (by decide) <| .behind '\\' .nil
  have hspace : Text.isBlank ' ' = true := by decide +kernel
  have hnewline : Text.isBlank '\n' = true := by decide +kernel
  have htab : Text.isBlank '\t' = true := by decide +kernel
  have hcomment : Gap ('-' :: '-' :: (['\x22'] ++ '\n' :: [])) := .comment (by decide) .nil
  have hwritten : Written variousTokens variousText :=
    .cons (.keyword (by decide)) hspace hcomment <|
      .cons (.identifier hname) hspace .nil <|
      .cons (.sign (by decide)) hnewline .nil <|
      .cons (.quoted "a\"b" (.inr rfl)) hspace .nil <|
      .cons (.sign (by decide)) hspace .nil <|
      .cons (.string hescaped) htab .nil <| .last (.number hnumeral)
  exact ⟨hwritable, (scan_written hwritable).2 [' '] variousText (.blank hspace .nil) hwritten⟩

end Token

end TableQuery
