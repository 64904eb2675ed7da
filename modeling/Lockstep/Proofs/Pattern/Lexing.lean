import Lockstep.Pattern.Grammar

/-!
# The symbols of a text

The tokens of a text are the symbols that its characters write, and there is no other way to divide
the characters into symbols.

* `Token.lexes_ofChar`, `Token.lexes_ofEscaped`: the symbol of a character, and of one behind a
  backslash.
* `Token.lexes_iff`: the symbols of a text.
-/

namespace Lockstep

namespace Symbol

theorem ofChar_char (op : Operator) : ofChar op.char = .operator op := by
  rw [ofChar, Operator.ofChar?_char]

theorem ofChar_of_needsEscape {c : Char} (h : needsEscape c = false) : ofChar c = .literal c := by
  rw [needsEscape, Bool.or_eq_false_iff, Option.isSome_eq_false_iff, Option.isNone_iff_eq_none] at h
  rw [ofChar, h.2]

/-- A character other than a backslash is an operator, or it needs no backslash. -/
theorem exists_char_or_needsEscape {c : Char} (h : c ≠ '\\') :
    (∃ op, c = Operator.char op) ∨ needsEscape c = false := by
  cases hop : Operator.ofChar? c with
  | none => exact Or.inr (by simp [needsEscape, hop, h])
  | some op => exact Or.inl ⟨op, Operator.ofChar?_eq_some_iff.1 hop⟩

theorem ofEscaped_of_mem_controls {letter c : Char} (h : (letter, c) ∈ controls) :
    ofEscaped letter = .literal c := by
  simp only [controls, List.mem_cons, Prod.mk.injEq, List.not_mem_nil, or_false] at h
  rcases h with ⟨rfl, rfl⟩ | ⟨rfl, rfl⟩ | ⟨rfl, rfl⟩ | ⟨rfl, rfl⟩ | ⟨rfl, rfl⟩ | ⟨rfl, rfl⟩ <;> rfl

/-- Operators and the backslash are no letters of control characters. -/
theorem not_mem_controls {c : Char} (h : needsEscape c = true) (d : Char) :
    (c, d) ∉ controls := by
  intro hd
  simp only [controls, List.mem_cons, Prod.mk.injEq, List.not_mem_nil, or_false] at hd
  rcases hd with ⟨rfl, -⟩ | ⟨rfl, -⟩ | ⟨rfl, -⟩ | ⟨rfl, -⟩ | ⟨rfl, -⟩ | ⟨rfl, -⟩ <;> cases h

theorem ofEscaped_of_not_mem_controls {c : Char} (h : ∀ d, (c, d) ∉ controls) :
    ofEscaped c = if needsEscape c then .literal c else .escape c := by
  unfold ofEscaped
  split
  case h_1 => exact absurd (by decide) (h '\n')
  case h_2 => exact absurd (by decide) (h '\r')
  case h_3 => exact absurd (by decide) (h '\t')
  case h_4 => exact absurd (by decide) (h '\x0c')
  case h_5 => exact absurd (by decide) (h '\x0b')
  case h_6 => exact absurd (by decide) (h '\x00')
  case h_7 => simp [needsEscape]

end Symbol

namespace Token

open Lockstep.Symbol

theorem tokenize_cons (pos : Nat) {cell : Cell} (h : cell.char ≠ '\\') (rest : List Cell) :
    tokenize pos (cell :: rest) =
      ⟨pos, Symbol.ofChar cell.char⟩ :: tokenize (pos + cell.width) rest := by
  cases rest with
  | nil => rfl
  | cons next rest => rw [tokenize, if_neg h]

theorem tokenize_backslash (pos : Nat) {cell : Cell} (h : cell.char = '\\') (next : Cell)
    (rest : List Cell) : tokenize pos (cell :: next :: rest) =
      ⟨pos, Symbol.ofEscaped next.char⟩ :: tokenize (pos + cell.width + next.width) rest := by
  rw [tokenize, if_pos h]

/-- A character that is no backslash is a symbol of its own. -/
theorem lexes_ofChar {c : Char} {cs : List Char} {symbols : List Symbol} (hc : c ≠ '\\')
    (h : Lexes cs symbols) : Lexes (c :: cs) (Symbol.ofChar c :: symbols) := by
  rcases exists_char_or_needsEscape hc with ⟨op, rfl⟩ | hplain
  · rw [ofChar_char]
    exact .operator op h
  · rw [ofChar_of_needsEscape hplain]
    exact .plain hplain h

/-- A backslash takes the next character with it. -/
theorem lexes_ofEscaped (c : Char) {cs : List Char} {symbols : List Symbol}
    (h : Lexes cs symbols) : Lexes ('\\' :: c :: cs) (Symbol.ofEscaped c :: symbols) := by
  by_cases hcontrol : ∃ d, (c, d) ∈ controls
  · obtain ⟨d, hd⟩ := hcontrol
    rw [ofEscaped_of_mem_controls hd]
    exact .control hd h
  · rw [not_exists] at hcontrol
    rw [ofEscaped_of_not_mem_controls hcontrol]
    cases hneeds : needsEscape c with
    | true => exact .escaped hneeds h
    | false => exact .escape hneeds hcontrol h

/-- The symbols of the tokens are written by the characters. -/
theorem lexes_tokenize (pos : Nat) (cells : List Cell) :
    Lexes (cells.map Cell.char) ((tokenize pos cells).map Token.symbol) := by
  induction pos, cells using tokenize.induct with
  | case1 pos => exact .nil
  | case2 pos cell =>
    by_cases hc : cell.char = '\\'
    · show Lexes [cell.char] [Symbol.ofChar cell.char]
      rw [hc]
      exact .backslash
    · exact lexes_ofChar hc .nil
  | case3 pos cell next rest hc ih =>
    rw [tokenize_backslash pos hc, List.map_cons, List.map_cons, hc]
    exact lexes_ofEscaped next.char ih
  | case4 pos cell next rest hc ih =>
    rw [tokenize_cons pos hc]
    exact lexes_ofChar hc ih

/-- The characters write nothing else. -/
theorem eq_map_symbol_of_lexes {cs : List Char} {symbols : List Symbol} (h : Lexes cs symbols)
    (pos : Nat) {cells : List Cell} (hcells : cells.map Cell.char = cs) :
    symbols = (tokenize pos cells).map Token.symbol := by
  induction h generalizing pos cells with
  | nil =>
    obtain rfl := List.map_eq_nil_iff.1 hcells
    rfl
  | operator op _ ih =>
    obtain ⟨cell, rest, rfl, hc, hrest⟩ := List.map_eq_cons_iff.1 hcells
    have hne : cell.char ≠ '\\' := by rw [hc]; cases op <;> decide
    rw [tokenize_cons pos hne, List.map_cons, ← ih _ hrest, hc, ofChar_char]
  | @plain c _ _ hplain _ ih =>
    obtain ⟨cell, rest, rfl, rfl, hrest⟩ := List.map_eq_cons_iff.1 hcells
    have hne : cell.char ≠ '\\' := by
      intro heq
      rw [heq] at hplain
      cases hplain
    rw [tokenize_cons pos hne, List.map_cons, ← ih _ hrest, ofChar_of_needsEscape hplain]
  | control hd _ ih =>
    obtain ⟨cell, rest, rfl, hc, hrest⟩ := List.map_eq_cons_iff.1 hcells
    obtain ⟨next, rest, rfl, rfl, hbehind⟩ := List.map_eq_cons_iff.1 hrest
    rw [tokenize_backslash pos hc, List.map_cons, ← ih _ hbehind, ofEscaped_of_mem_controls hd]
  | escaped hneeds _ ih =>
    obtain ⟨cell, rest, rfl, hc, hrest⟩ := List.map_eq_cons_iff.1 hcells
    obtain ⟨next, rest, rfl, rfl, hbehind⟩ := List.map_eq_cons_iff.1 hrest
    rw [tokenize_backslash pos hc, List.map_cons, ← ih _ hbehind,
      ofEscaped_of_not_mem_controls (not_mem_controls hneeds), if_pos hneeds]
  | escape hneeds hcontrol _ ih =>
    obtain ⟨cell, rest, rfl, hc, hrest⟩ := List.map_eq_cons_iff.1 hcells
    obtain ⟨next, rest, rfl, rfl, hbehind⟩ := List.map_eq_cons_iff.1 hrest
    rw [tokenize_backslash pos hc, List.map_cons, ← ih _ hbehind,
      ofEscaped_of_not_mem_controls hcontrol, hneeds]
    rfl
  | backslash =>
    obtain ⟨cell, rest, rfl, hc, hrest⟩ := List.map_eq_cons_iff.1 hcells
    obtain rfl := List.map_eq_nil_iff.1 hrest
    show _ = [Symbol.ofChar cell.char]
    rw [hc]
    rfl

/-- The characters of a text write the symbols of its tokens, and no others. -/
theorem lexes_iff {t : Text} {symbols : List Symbol} :
    Lexes (t.cells.map Cell.char) symbols ↔ symbols = (ofText t).map Token.symbol := by
  constructor
  · exact fun h => eq_map_symbol_of_lexes h 0 rfl
  · rintro rfl
    exact lexes_tokenize 0 t.cells

end Token

end Lockstep
