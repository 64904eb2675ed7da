import Lockstep.Pattern.Writable
import Lockstep.Proofs.Pattern.Soundness

/-!
# What the spelling of a pattern is read as

The symbols of a writable pattern write it, and so do the characters that spell them: what stands
for itself is escaped where it would be an operator, so no symbol of a pattern is taken for another
one, whatever stands next to it. Every other tree is written by no text at all.

* `Symbol.lexes_spell`: characters that spell symbols write them.
* `ClassItem.derives_symbols`: the members of a class.
* `Pattern.Writable.derives`, `Pattern.Derives.writable`: the grammar derives the writable patterns,
  each of them from its own symbols, and no others.
* `Pattern.ofText_eq_ok_iff_writable`: a pattern is read from its spelling just if it is writable
  and not too deep.
-/

namespace Lockstep

/-! ### Symbols -/

/-- The operators and the backslash need a backslash to stand for themselves. -/
theorem needsEscape_iff {c : Char} : needsEscape c = true ↔
    c ∈ ['(', ')', '[', ']', '+', '-', '*', '?', '^', '|', '.', '\\'] := by
  constructor
  · intro h
    rw [needsEscape, Bool.or_eq_true, beq_iff_eq, Option.isSome_iff_exists] at h
    rcases h with rfl | ⟨op, hop⟩
    · decide
    · obtain rfl := Operator.ofChar?_eq_some_iff.1 hop
      cases op <;> decide
  · intro h
    simp only [List.mem_cons, List.not_mem_nil, or_false] at h
    rcases h with rfl | rfl | rfl | rfl | rfl | rfl | rfl | rfl | rfl | rfl | rfl | rfl <;> rfl

namespace Symbol

/-- Whether a character behind a backslash gives it a meaning only in patterns. -/
def IsEscape (c : Char) : Prop := needsEscape c = false ∧ ∀ d, (c, d) ∉ controls

/-- The letters of shorthands are neither operators nor those of control characters. -/
theorem isEscape_of_ofLetter? {letter : Char} {s : Shorthand × Bool}
    (h : Shorthand.ofLetter? letter = some s) : IsEscape letter := by
  unfold Shorthand.ofLetter? at h
  split at h
  case h_7 => cases h
  all_goals exact ⟨rfl, by simp [controls]⟩

/-- Characters that spell symbols write them, if all escapes have a meaning in patterns. -/
theorem lexes_spell {symbols : List Symbol} (h : ∀ c, .escape c ∈ symbols → IsEscape c) :
    Lexes (symbols.flatMap spell) symbols := by
  induction symbols with
  | nil => exact .nil
  | cons symbol symbols ih =>
    have hrest := ih fun c hc => h c (List.mem_cons_of_mem _ hc)
    rw [List.flatMap_cons]
    cases symbol with
    | literal c =>
      cases hc : needsEscape c with
      | true => simpa [spell, hc] using Lexes.escaped hc hrest
      | false => simpa [spell, hc] using Lexes.plain hc hrest
    | escape c =>
      obtain ⟨hc, hcontrols⟩ := h c List.mem_cons_self
      exact .escape hc hcontrols hrest
    | operator op => exact .operator op hrest

end Symbol

namespace ClassItem

variable {item : ClassItem} {items : List ClassItem} {w : List Symbol}

theorem isEscape_of_mem_symbols {c : Char} (h : .escape c ∈ item.symbols) :
    Symbol.IsEscape c := by
  cases item with
  | single d => simp [symbols] at h
  | range lo hi => simp [symbols] at h
  | shorthand s =>
    obtain rfl : c = s.letter := by simpa [symbols] using h
    exact Symbol.isEscape_of_ofLetter? s.ofLetter?_letter

/-- No member of a class begins with an operator. -/
theorem head?_symbols_ne_operator (items : List ClassItem) (op : Operator) :
    (items.flatMap symbols).head? ≠ some (.operator op) := by
  cases items with
  | nil => exact nofun
  | cons item items => cases item <;> simp [symbols]

/-- The symbols of the members of a class write them. A `-` that is a member is escaped, so it makes
no range. -/
theorem derives_symbols (h : ∀ item ∈ items, item.Writable) :
    Derives (items.flatMap symbols) items := by
  induction items with
  | nil => exact .nil
  | cons item items ih =>
    obtain ⟨hitem, hitems⟩ := List.forall_mem_cons.1 h
    rw [List.flatMap_cons]
    cases item with
    | single c =>
      have hminus : ∀ v, items.flatMap symbols = .operator .minus :: v → v = [] := fun v hv =>
        absurd (congrArg List.head? hv) (head?_symbols_ne_operator items .minus)
      exact .single (.literal c) hminus (ih hitems)
    | range lo hi => exact .range (.literal lo) (.literal hi) hitem (ih hitems)
    | shorthand s => exact .shorthand s.ofLetter?_letter (ih hitems)

/-- The grammar derives no other members. -/
theorem Derives.writable (h : Derives w items) : ∀ item ∈ items, item.Writable := by
  induction h with
  | nil => exact nofun
  | shorthand _ _ ih => exact List.forall_mem_cons.2 ⟨trivial, ih⟩
  | single _ _ _ ih => exact List.forall_mem_cons.2 ⟨trivial, ih⟩
  | range _ _ hle _ ih => exact List.forall_mem_cons.2 ⟨hle, ih⟩

end ClassItem

theorem Atom.isEscape_of_mem_symbols {a : Atom} {c : Char} (h : .escape c ∈ a.symbols) :
    Symbol.IsEscape c := by
  have hitems {items : List ClassItem} (h : .escape c ∈ items.flatMap ClassItem.symbols) :
      Symbol.IsEscape c := by
    obtain ⟨item, -, hitem⟩ := List.mem_flatMap.1 h
    exact ClassItem.isEscape_of_mem_symbols hitem
  cases a with
  | literal d => simp [symbols] at h
  | any => simp [symbols] at h
  | shorthand s negated =>
    cases negated with
    | false =>
      obtain rfl : c = s.letter := by simpa [symbols] using h
      exact Symbol.isEscape_of_ofLetter? s.ofLetter?_letter
    | true =>
      obtain rfl : c = s.negatedLetter := by simpa [symbols] using h
      exact Symbol.isEscape_of_ofLetter? s.ofLetter?_negatedLetter
  | bracket negated items =>
    cases negated with
    | false => exact hitems (by simpa [symbols] using h)
    | true => exact hitems (by simpa [symbols] using h)

namespace Pattern

variable {e : Pattern} {part part' : Part} {depth : Nat} {w : List Symbol} {t : Text}

theorem isEscape_of_mem_symbols {c : Char} (h : .escape c ∈ e.symbols) : Symbol.IsEscape c := by
  induction e with
  | atom a => exact Atom.isEscape_of_mem_symbols h
  | group body ih => exact ih (by simpa [symbols] using h)
  | concat first second ih₁ ih₂ =>
    rcases List.mem_append.1 h with h | h
    · exact ih₁ h
    · exact ih₂ h
  | alternate first second ih₁ ih₂ =>
    rcases List.mem_append.1 h with h | h
    · exact ih₁ h
    · exact ih₂ (by simpa using h)
  | repeated body q greedy ih =>
    cases greedy with
    | true => exact ih (by simpa [symbols] using h)
    | false => exact ih (by simpa [symbols] using h)

/-- The spelling of a pattern writes its symbols. -/
theorem lexes_spelling (e : Pattern) : Symbol.Lexes e.spelling.toList e.symbols := by
  rw [spelling, String.toList_ofList]
  exact Symbol.lexes_spell fun c => isEscape_of_mem_symbols

/-! ### Trees -/

theorem fits_alternation (e : Pattern) : e.Fits .alternation := by
  rw [Fits]
  cases e.part <;> decide

/-- What is derived as a part can stand for a wider part. -/
theorem Derives.widen (h : Derives depth part w e) (hle : part.rank ≤ part'.rank) :
    Derives depth part' w e := by
  have hpiece (h : Derives depth .piece w e) (hle : 1 ≤ part'.rank) : Derives depth part' w e := by
    cases part' with
    | operand => cases hle
    | piece => exact h
    | concatenation => exact .last h
    | alternation => exact .branch (.last h)
  cases part with
  | operand =>
    cases part' with
    | operand => exact h
    | piece | concatenation | alternation => exact hpiece (.once h) (by simp [Part.rank])
  | piece => exact hpiece h hle
  | concatenation =>
    cases part' with
    | operand | piece => simp [Part.rank] at hle
    | concatenation => exact h
    | alternation => exact .branch h
  | alternation =>
    cases part' with
    | operand | piece | concatenation => simp [Part.rank] at hle
    | alternation => exact h

/-- A writable atom is derived from its symbols. -/
theorem derives_atom {a : Atom} (h : a.Writable) :
    Derives depth .operand a.symbols (.atom a) := by
  cases a with
  | literal c => exact .literal c
  | any => exact .dot
  | shorthand s negated =>
    cases negated with
    | false => exact .shorthand s.ofLetter?_letter
    | true => exact .shorthand s.ofLetter?_negatedLetter
  | bracket negated items =>
    obtain ⟨hne, hitems⟩ := h
    have hmembers := ClassItem.derives_symbols hitems
    cases negated with
    | false => exact .inside hmembers hne (ClassItem.head?_symbols_ne_operator items .caret)
    | true => exact .outside hmembers hne

/-- A writable pattern is derived from its symbols. -/
theorem Writable.derives (h : e.Writable) (hdepth : e.depth ≤ depth) :
    Derives depth e.part e.symbols e := by
  induction e generalizing depth with
  | atom a => exact derives_atom h
  | group body ih =>
    obtain ⟨d, rfl⟩ := Nat.exists_eq_succ_of_ne_zero (Nat.ne_zero_of_lt hdepth)
    exact .group ((ih h (Nat.le_of_succ_le_succ hdepth)).widen body.fits_alternation)
  | concat first rest ih₁ ih₂ =>
    obtain ⟨hfirst, hrest, h₁, h₂⟩ := h
    obtain ⟨hd₁, hd₂⟩ := Nat.max_le.1 hdepth
    exact .next ((ih₁ h₁ hd₁).widen hfirst) ((ih₂ h₂ hd₂).widen hrest)
  | alternate first rest ih₁ ih₂ =>
    obtain ⟨hfirst, h₁, h₂⟩ := h
    obtain ⟨hd₁, hd₂⟩ := Nat.max_le.1 hdepth
    exact .bar ((ih₁ h₁ hd₁).widen hfirst) ((ih₂ h₂ hd₂).widen rest.fits_alternation)
  | repeated body q greedy ih =>
    obtain ⟨hbody, h⟩ := h
    have hoperand := (ih h hdepth).widen hbody
    cases greedy with
    | true => exact .greedy q hoperand
    | false => exact .lazy q hoperand

/-- The grammar derives no other patterns. -/
theorem Derives.writable (h : Derives depth part w e) :
    e.Writable ∧ e.Fits part ∧ e.depth ≤ depth := by
  induction h with
  | branch _ ih => exact ⟨ih.1, fits_alternation _, ih.2.2⟩
  | last _ ih | once _ ih => exact ⟨ih.1, Nat.le_succ_of_le ih.2.1, ih.2.2⟩
  | bar _ _ ih₁ ih₂ =>
    exact ⟨⟨ih₁.2.1, ih₁.1, ih₂.1⟩, Nat.le_refl _, Nat.max_le.2 ⟨ih₁.2.2, ih₂.2.2⟩⟩
  | next _ _ ih₁ ih₂ =>
    exact ⟨⟨ih₁.2.1, ih₂.2.1, ih₁.1, ih₂.1⟩, Nat.le_refl _, Nat.max_le.2 ⟨ih₁.2.2, ih₂.2.2⟩⟩
  | greedy q _ ih | lazy q _ ih => exact ⟨⟨ih.2.1, ih.1⟩, Nat.le_refl _, ih.2.2⟩
  | literal | caret | minus | dot | shorthand => exact ⟨trivial, Nat.le_refl _, Nat.zero_le _⟩
  | group _ ih => exact ⟨ih.1, Nat.le_refl _, Nat.succ_le_succ ih.2.2⟩
  | inside hmembers hne | outside hmembers hne =>
    exact ⟨⟨hne, hmembers.writable⟩, Nat.le_refl _, Nat.zero_le _⟩

/-! ### Texts -/

/-- The tokens of a text that is the spelling of a pattern. -/
theorem map_symbol_ofText (h : t.asString = e.spelling) :
    (Token.ofText t).map Token.symbol = e.symbols := by
  have hcells : t.cells.map Cell.char = e.spelling.toList := by
    rw [← h, Text.toList_asString]
  exact (Token.lexes_iff.1 (hcells ▸ e.lexes_spelling)).symm

/-- A pattern is read from its spelling just if it can be written and its groups are not too deep.
-/
theorem ofText_eq_ok_iff_writable (h : t.asString = e.spelling) :
    ofText t = .ok e ↔ e.Writable ∧ e.depth ≤ nestLimit := by
  have hsymbols := map_symbol_ofText h
  constructor
  · intro hread
    obtain ⟨hwritable, -, hdepth⟩ := (derives_of_ofTokens hread).writable
    exact ⟨hwritable, hdepth⟩
  · rintro ⟨hwritable, hdepth⟩
    have hderives : Derives nestLimit .alternation e.symbols e :=
      (hwritable.derives hdepth).widen e.fits_alternation
    exact ofTokens_eq_ok_of_derives hderives hsymbols t.size

end Pattern

end Lockstep
