import Lockstep.Listing.Assembly
import Mathlib.Data.List.Induction
import Mathlib.Tactic.IntervalCases

/-!
# Reading operands back

A word is read as the character or the number that it writes. What is written for a character or a
number is one word of a line, which writes that character or number, so it is read back.

* `Listing.IsWord`: nothing in a text divides it or hides a part of it.
* `Listing.hexValue?_eq_some_iff`, `Listing.numeral_ten_iff`: digits in bases sixteen and ten.
* `Listing.readChar?_eq_some_iff`, `Listing.readNumber?_eq_some_iff`: the words that are read.
* `Listing.readChar?_writeChar`, `Listing.isWord_writeChar`: characters.
* `Listing.readNumber?_toString`, `Listing.isWord_toString`: numbers.
-/

namespace Lockstep.Listing

/-- The characters that may stand in a word: no blanks, and no semicolon. -/
def InWord (c : Char) : Prop := Unicode.isWhiteSpace c = false ∧ c ≠ ';'

/-- A word is not empty, and all its characters may stand in words. -/
structure IsWord (word : String) : Prop where
  ne_empty : word.toList ≠ []
  inWord : ∀ c ∈ word.toList, InWord c

theorem isWhiteSpace_iff {c : Char} : Unicode.isWhiteSpace c = true ↔
    ∃ range ∈ Unicode.whiteSpace.ranges, range.1 ≤ c.toNat ∧ c.toNat ≤ range.2 :=
  Unicode.RangeTable.contains_iff

/-- Blanks are found below and above the visible characters of ASCII. -/
theorem inWord_of_toNat {c : Char} (h : 0x21 ≤ c.toNat ∧ c.toNat ≤ 0x7e) (hne : c ≠ ';') :
    InWord c := by
  refine ⟨?_, hne⟩
  rw [← Bool.not_eq_true, isWhiteSpace_iff]
  simp [Unicode.whiteSpace]
  omega

/-! ### Digits -/

variable {base n value bound width : Nat} {c : Char} {digits : List Char}

theorem numeral_nil_iff : Numeral base [] n ↔ n = 0 := by
  constructor
  · intro h
    generalize hdigits : [] = digits at h
    cases h with
    | nil => rfl
    | place => simp at hdigits
  · rintro rfl
    exact .nil

theorem numeral_append_singleton_iff : Numeral base (digits ++ [c]) n ↔
    ∃ m value, Numeral base digits m ∧ WritesDigit base c value ∧ n = base * m + value := by
  constructor
  · intro h
    generalize hdigits : digits ++ [c] = all at h
    cases h with
    | nil => simp at hdigits
    | place h hc =>
      obtain ⟨rfl, hlast⟩ := List.append_inj' hdigits rfl
      obtain rfl := List.singleton_inj.1 hlast
      exact ⟨_, _, h, hc, rfl⟩
  · rintro ⟨m, value, h, hc, rfl⟩
    exact .place h hc

theorem hexDigit?_eq_some_iff : hexDigit? c = some value ↔ WritesDigit 16 c value := by
  constructor
  · intro h
    have hascii : c.toNat < 128 := by
      unfold hexDigit? at h
      split_ifs at h with hc hc hc
      all_goals exact Nat.lt_of_le_of_lt hc.2 (by decide)
    -- All digits are in ASCII, whose characters are few enough to be looked at one by one.
    have hall : ∀ code : Fin 128, ∀ v ∈ hexDigit? (Char.ofNat code), v < 16 ∧
        (Char.ofNat code = v.digitChar ∨ Char.ofNat code = v.digitChar.toUpper) := by decide
    have hc := hall ⟨c.toNat, hascii⟩ value
    rw [Char.ofNat_toNat] at hc
    exact hc h
  · rintro ⟨hvalue, hc⟩
    interval_cases value <;> rcases hc with rfl | rfl <;> rfl

theorem hexValue?_append_singleton : hexValue? (digits ++ [c]) =
    (hexValue? digits).bind fun n => (hexDigit? c).map (16 * n + ·) := by
  rw [hexValue?, List.foldlM_append, ← hexValue?]
  cases hexValue? digits with
  | none => rfl
  | some n => cases h : hexDigit? c <;> simp [h]

/-- Digits in base sixteen are read from the left, each with a place of its own behind the digits
before it. -/
theorem hexValue?_eq_some_iff : hexValue? digits = some n ↔ Numeral 16 digits n := by
  induction digits using List.reverseRecOn generalizing n with
  | nil =>
    rw [numeral_nil_iff, eq_comm (a := n)]
    exact Option.some_inj
  | append_singleton digits c ih =>
    rw [hexValue?_append_singleton, numeral_append_singleton_iff, Option.bind_eq_some_iff]
    refine exists_congr fun m => ?_
    rw [ih, Option.map_eq_some_iff]
    simp only [hexDigit?_eq_some_iff, eq_comm (b := n), exists_and_left]

theorem toNat_of_isDigit (h : c.isDigit = true) : 0x30 ≤ c.toNat ∧ c.toNat ≤ 0x39 := by
  simpa [Char.isDigit, UInt32.le_iff_toNat_le] using h

/-- The digits of base ten are no letters. -/
theorem isDigit_and_toNat_iff :
    c.isDigit = true ∧ c.toNat - '0'.toNat = value ↔ WritesDigit 10 c value := by
  constructor
  · rintro ⟨h, rfl⟩
    have hc := toNat_of_isDigit h
    have hvalue : c.toNat - '0'.toNat < 10 := by
      show c.toNat - 0x30 < 10
      omega
    refine ⟨hvalue, Or.inl (Char.toNat_inj.1 ?_)⟩
    rw [Nat.toNat_digitChar_of_lt_ten hvalue]
    exact (Nat.add_sub_cancel' hc.1).symm
  · rintro ⟨hvalue, hc⟩
    interval_cases value <;> rcases hc with rfl | rfl <;> exact ⟨rfl, rfl⟩

theorem numeral_ten_iff :
    Numeral 10 digits n ↔ digits.all Char.isDigit = true ∧ Nat.ofDigitChars 10 digits 0 = n := by
  induction digits using List.reverseRecOn generalizing n with
  | nil =>
    rw [numeral_nil_iff, eq_comm]
    exact (and_iff_right rfl).symm
  | append_singleton digits c ih =>
    rw [numeral_append_singleton_iff, List.all_append, Nat.ofDigitChars_append]
    constructor
    · rintro ⟨m, value, hm, hc, rfl⟩
      obtain ⟨hall, rfl⟩ := ih.1 hm
      obtain ⟨hdigit, rfl⟩ := isDigit_and_toNat_iff.2 hc
      refine ⟨?_, rfl⟩
      rw [hall, List.all_cons, hdigit]
      rfl
    · rintro ⟨hall, rfl⟩
      rw [Bool.and_eq_true, List.all_cons, Bool.and_eq_true] at hall
      exact ⟨_, _, ih.2 ⟨hall.1, rfl⟩, isDigit_and_toNat_iff.1 ⟨hall.2.1, rfl⟩, rfl⟩

theorem inWord_digitChar {d : Nat} (h : d < 16) : InWord d.digitChar := by
  interval_cases d <;> exact inWord_of_toNat (by decide) (by decide)

theorem inWord_hexDigits (width n : Nat) : ∀ c ∈ hexDigits width n, InWord c := by
  induction width generalizing n with
  | zero => simp [hexDigits]
  | succ width ih =>
    intro c hc
    rw [hexDigits, List.mem_append, List.mem_singleton] at hc
    rcases hc with hc | rfl
    · exact ih _ c hc
    · exact inWord_digitChar (Nat.mod_lt _ (by decide))

/-- A number is written by its digits if there are enough of them. -/
theorem numeral_hexDigits (h : n < 16 ^ width) : Numeral 16 (hexDigits width n) n := by
  induction width generalizing n with
  | zero =>
    obtain rfl : n = 0 := by omega
    exact .nil
  | succ width ih =>
    have hfront := ih (Nat.div_lt_of_lt_mul (Nat.pow_succ' ▸ h))
    have hall := hfront.place ⟨Nat.mod_lt n (by decide), Or.inl rfl⟩
    rwa [Nat.div_add_mod] at hall

/-! ### Characters -/

theorem charOfHex?_eq_some_iff :
    charOfHex? width digits = some c ↔ digits.length = width ∧ Numeral 16 digits c.toNat := by
  rw [← hexValue?_eq_some_iff, charOfHex?]
  constructor
  · intro h
    obtain ⟨_, hlength, h⟩ := Option.bind_eq_some_iff.1 h
    obtain ⟨code, hcode, h⟩ := Option.bind_eq_some_iff.1 h
    by_cases hvalid : code.isValidChar
    · rw [dif_pos hvalid] at h
      obtain rfl := Option.some.inj h
      exact ⟨(Option.guard_eq_some' _).1 hlength, hcode⟩
    · rw [dif_neg hvalid] at h
      cases h
  · rintro ⟨hlength, hvalue⟩
    rw [hvalue, guard, if_pos hlength]
    exact dif_pos c.valid

/-- What stands behind a backslash is read as the character that the whole word writes. A backslash
with nothing behind it is none of these words. -/
theorem readEscape?_eq_some_iff {escape : List Char} :
    readEscape? escape = some c ↔ WritesChar ('\\' :: escape) c ∧ escape ≠ [] := by
  constructor
  · intro h
    unfold readEscape? at h
    split at h
    case h_7 =>
      obtain ⟨hlength, h⟩ := charOfHex?_eq_some_iff.1 h
      exact ⟨.byte hlength h, List.cons_ne_nil _ _⟩
    case h_8 =>
      obtain ⟨hlength, h⟩ := charOfHex?_eq_some_iff.1 h
      exact ⟨.code hlength h, List.cons_ne_nil _ _⟩
    case h_9 => cases h
    all_goals
      obtain rfl := Option.some.inj h
      exact ⟨.escape (by decide), List.cons_ne_nil _ _⟩
  · rintro ⟨h, hne⟩
    cases h with
    | raw => exact absurd rfl hne
    | escape h =>
      simp only [escapes, List.mem_cons, Prod.mk.injEq, List.not_mem_nil, or_false] at h
      rcases h with ⟨rfl, rfl⟩ | ⟨rfl, rfl⟩ | ⟨rfl, rfl⟩ | ⟨rfl, rfl⟩ | ⟨rfl, rfl⟩ | ⟨rfl, rfl⟩ <;>
        rfl
    | byte hlength h => exact charOfHex?_eq_some_iff.2 ⟨hlength, h⟩
    | code hlength h => exact charOfHex?_eq_some_iff.2 ⟨hlength, h⟩

theorem readChar?_ofList_eq_some_iff {chars : List Char} :
    readChar? (String.ofList chars) = some c ↔ WritesChar chars c := by
  rw [readChar?, String.toList_ofList]
  split
  case h_1 =>
    rw [Option.some_inj]
    constructor
    · rintro rfl
      exact .raw
    · rintro ⟨⟩
      rfl
  case h_2 hne =>
    rw [readEscape?_eq_some_iff]
    exact and_iff_left hne
  case h_3 hraw hescape =>
    refine iff_of_false nofun fun h => ?_
    cases h with
    | raw => exact hraw _ rfl
    | escape | byte | code => exact hescape _ rfl

/-- A word is read as the character that it writes, and as none if it writes none. -/
theorem readChar?_eq_some_iff {word : String} :
    readChar? word = some c ↔ WritesChar word.toList c := by
  rw [← readChar?_ofList_eq_some_iff, String.ofList_toList]

/-- The characters that are written by their code have one of at most four digits. -/
theorem toNat_lt_of_needsCode (h : needsCode c = true) : c.toNat < 16 ^ 4 := by
  simp only [needsCode, Bool.or_eq_true, beq_iff_eq] at h
  rcases h with (rfl | h) | h
  · decide
  · rw [isWhiteSpace_iff] at h
    simp [Unicode.whiteSpace] at h
    omega
  · obtain ⟨range, hmem, hc⟩ := Unicode.RangeTable.contains_iff.1 h
    simp [Unicode.control] at hmem
    rcases hmem with rfl | rfl <;> omega

theorem inWord_escape (letter : Char) (hletter : 0x5c ≤ letter.toNat ∧ letter.toNat ≤ 0x7e)
    (h : ∀ d ∈ digits, InWord d) : ∀ d ∈ '\\' :: letter :: digits, InWord d := by
  refine List.forall_mem_cons.2 ⟨inWord_of_toNat (by decide) (by decide),
    List.forall_mem_cons.2 ⟨inWord_of_toNat ⟨by omega, hletter.2⟩ ?_, h⟩⟩
  rintro rfl
  exact absurd hletter.1 (by decide)

/-- A character is written as a backslash and a letter, perhaps with digits, or as it is, and either
writes it. -/
theorem exists_writeChar_eq (c : Char) : ∃ chars, writeChar c = String.ofList chars ∧
    WritesChar chars c ∧ ∀ d ∈ chars, InWord d := by
  unfold writeChar
  split
  · exact ⟨_, rfl, .escape (by decide), inWord_escape 'n' (by decide) nofun⟩
  · exact ⟨_, rfl, .escape (by decide), inWord_escape 'r' (by decide) nofun⟩
  · exact ⟨_, rfl, .escape (by decide), inWord_escape 't' (by decide) nofun⟩
  · exact ⟨_, rfl, .escape (by decide), inWord_escape 'v' (by decide) nofun⟩
  · exact ⟨_, rfl, .escape (by decide), inWord_escape 'f' (by decide) nofun⟩
  · exact ⟨_, rfl, .escape (by decide), inWord_escape '\\' (by decide) nofun⟩
  · split
    case isTrue hcode =>
      split
      case isTrue hlt =>
        exact ⟨_, (@String.ofList_append ['\\', 'x'] _).symm,
          .byte (length_hexDigits 2 _) (numeral_hexDigits hlt),
          inWord_escape _ (by decide) (inWord_hexDigits _ _)⟩
      case isFalse hlt =>
        exact ⟨_, (@String.ofList_append ['\\', 'u'] _).symm,
          .code (length_hexDigits 4 _) (numeral_hexDigits (toNat_lt_of_needsCode hcode)),
          inWord_escape _ (by decide) (inWord_hexDigits _ _)⟩
    case isFalse hcode =>
      simp only [needsCode, Bool.or_eq_true, not_or, beq_iff_eq, Bool.not_eq_true] at hcode
      exact ⟨[c], rfl, .raw, List.forall_mem_singleton.2 ⟨hcode.1.2, hcode.1.1⟩⟩

/-- A character is read back from the word that is written for it. -/
theorem readChar?_writeChar (c : Char) : readChar? (writeChar c) = some c := by
  obtain ⟨chars, heq, hwrites, -⟩ := exists_writeChar_eq c
  rw [heq]
  exact readChar?_ofList_eq_some_iff.2 hwrites

/-- What is written for a character is one word. -/
theorem isWord_writeChar (c : Char) : IsWord (writeChar c) := by
  obtain ⟨chars, heq, hwrites, hword⟩ := exists_writeChar_eq c
  rw [heq]
  refine ⟨?_, ?_⟩
  · rw [String.toList_ofList]
    rintro rfl
    cases hwrites
  · rwa [String.toList_ofList]

/-! ### Numbers -/

theorem readDigits?_eq_some_iff : readDigits? bound digits = some n ↔
    (digits ≠ [] ∧ Numeral 10 digits n) ∧ n ≤ bound := by
  rw [numeral_ten_iff, readDigits?]
  simp only [Option.bind_eq_bind, Option.bind_eq_some_iff, Option.guard_eq_some', exists_const,
    Bool.and_eq_true, Bool.not_eq_true', List.isEmpty_eq_false_iff, and_assoc]
  refine and_congr_right fun _ => and_congr_right fun _ => ?_
  constructor
  · rintro ⟨hle, ⟨⟩⟩
    exact ⟨rfl, hle⟩
  · rintro ⟨rfl, hle⟩
    exact ⟨hle, rfl⟩

/-- A word is read as the number that it writes, unless this is too large. -/
theorem readNumber?_eq_some_iff {word : String} :
    readNumber? bound word = some n ↔ WritesNumber word.toList n ∧ n ≤ bound := by
  unfold readNumber?
  generalize word.toList = chars
  split
  case h_1 digits =>
    rw [readDigits?_eq_some_iff]
    refine and_congr_left fun _ => ⟨fun h => .plus h.1 h.2, fun h => ?_⟩
    cases h with
    | plain hne h =>
      -- A plus sign is no digit.
      have hall := (numeral_ten_iff.1 h).1
      cases hall
    | plus hne h => exact ⟨hne, h⟩
  case h_2 hplus =>
    rw [readDigits?_eq_some_iff]
    refine and_congr_left fun _ => ⟨fun h => .plain h.1 h.2, fun h => ?_⟩
    cases h with
    | plain hne h => exact ⟨hne, h⟩
    | plus => exact absurd rfl (hplus _)

theorem WritesNumber.unique {word : String} {m : Nat} (hm : WritesNumber word.toList m)
    (hn : WritesNumber word.toList n) : m = n := by
  have hm := readNumber?_eq_some_iff.2 ⟨hm, Nat.le_max_left m n⟩
  have hn := readNumber?_eq_some_iff.2 ⟨hn, Nat.le_max_right m n⟩
  exact Option.some.inj (hm.symm.trans hn)

theorem inWord_of_isDigit (h : c.isDigit = true) : InWord c := by
  have hc := toNat_of_isDigit h
  refine inWord_of_toNat (by omega) ?_
  rintro rfl
  cases h

theorem toList_toString (n : Nat) : (toString n).toList = Nat.toDigits 10 n := by
  rw [Nat.toString_eq_repr, Nat.toList_repr]

theorem isDigit_of_mem_toString (h : c ∈ (toString n).toList) : c.isDigit = true := by
  rw [toList_toString] at h
  exact Nat.isDigit_of_mem_toDigits (by decide) (by decide) h

theorem isWord_toString (n : Nat) : IsWord (toString n) := by
  refine ⟨?_, fun c hc => inWord_of_isDigit (isDigit_of_mem_toString hc)⟩
  rw [toList_toString]
  exact Nat.toDigits_ne_nil

theorem writesNumber_toString (n : Nat) : WritesNumber (toString n).toList n := by
  rw [toList_toString]
  refine .plain Nat.toDigits_ne_nil (numeral_ten_iff.2 ⟨?_, Nat.ofDigitChars_ten_toDigits⟩)
  exact List.all_eq_true.2 fun c hc => Nat.isDigit_of_mem_toDigits (by decide) (by decide) hc

/-- A number is read back if it is not too large. -/
theorem readNumber?_toString (bound n : Nat) :
    readNumber? bound (toString n) = if n ≤ bound then some n else none := by
  split
  case isTrue hle => exact readNumber?_eq_some_iff.2 ⟨writesNumber_toString n, hle⟩
  case isFalse hlt =>
    refine Option.eq_none_iff_forall_ne_some.2 fun m hm => hlt ?_
    obtain ⟨hm, hle⟩ := readNumber?_eq_some_iff.1 hm
    exact hm.unique (writesNumber_toString n) ▸ hle

/-- A number that is read is not too large. -/
theorem le_of_readNumber? {word : String} (h : readNumber? bound word = some n) : n ≤ bound :=
  (readNumber?_eq_some_iff.1 h).2

end Lockstep.Listing
