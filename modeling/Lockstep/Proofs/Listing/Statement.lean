import Lockstep.Listing.Statement
import Lockstep.Proofs.Listing.Operand
import Mathlib.Data.List.TakeWhile

/-!
# Reading statements back

A list of statements is written with one statement on each line. If its words are words of a line,
and no operation looks like a label, then the same statements are read again.

* `Listing.splitAtAll_eq_splitOnP`: the library function that divides lists.
* `Listing.Statement.WellFormed`: the statements that a line can hold.
* `Listing.locate`: statements on lines of their own.
* `Listing.scan_render`: what is written is read again, each statement on its own line.
-/

namespace Lockstep.Listing

/-! ### Words of a line -/

theorem splitAtAll_eq_splitOnP {α : Type} (p : α → Bool) (xs : List α) :
    splitAtAll p xs = xs.splitOnP p := by
  induction xs with
  | nil => rfl
  | cons x xs ih =>
    rw [splitAtAll, List.splitOnP_cons_eq_if_modifyHead, ih]
    split
    · rfl
    · cases h : xs.splitOnP p with
      | nil => exact absurd h (List.splitOnP_ne_nil p xs)
      | cons part parts => rfl

/-- The words between single blanks are found again. -/
theorem filter_splitOnP_intercalate {p : Char → Bool} {parts : List (List Char)}
    (hp : p ' ' = true) (hparts : ∀ part ∈ parts, part ≠ [] ∧ ∀ c ∈ part, p c = false) :
    (([' '].intercalate parts).splitOnP p).filter (!·.isEmpty) = parts := by
  induction parts with
  | nil => rfl
  | cons part parts ih =>
    obtain ⟨⟨hne, hpart⟩, hparts⟩ := List.forall_mem_cons.1 hparts
    cases parts with
    | nil =>
      rw [List.intercalate_singleton, List.splitOnP_eq_singleton hpart]
      simp [hne]
    | cons next parts =>
      rw [List.intercalate_cons_cons, List.append_assoc, List.singleton_append,
        List.splitOnP_append_cons_of_forall_mem hpart ' ' hp,
        List.filter_cons_of_pos (by simp [hne]), ih hparts]

theorem eq_or_mem_of_mem_intercalate {sep c : Char} {parts : List (List Char)}
    (h : c ∈ [sep].intercalate parts) : c = sep ∨ ∃ part ∈ parts, c ∈ part := by
  induction parts with
  | nil => cases h
  | cons part parts ih =>
    cases parts with
    | nil =>
      rw [List.intercalate_singleton] at h
      exact Or.inr ⟨part, List.mem_cons_self, h⟩
    | cons next parts =>
      rw [List.intercalate_cons_cons, List.append_assoc, List.mem_append, List.singleton_append,
        List.mem_cons] at h
      rcases h with h | rfl | h
      · exact Or.inr ⟨part, List.mem_cons_self, h⟩
      · exact Or.inl rfl
      · exact (ih h).imp_right fun ⟨part, hmem, hc⟩ => ⟨part, List.mem_cons_of_mem _ hmem, hc⟩

/-- A row of words separated by blanks holds nothing else. -/
theorem eq_blank_or_inWord {row : List String} (h : ∀ word ∈ row, IsWord word) {c : Char}
    (hc : c ∈ [' '].intercalate (row.map String.toList)) : c = ' ' ∨ InWord c := by
  refine (eq_or_mem_of_mem_intercalate hc).imp_right ?_
  rintro ⟨part, hpart, hc⟩
  obtain ⟨word, hword, rfl⟩ := List.mem_map.1 hpart
  exact (h word hword).inWord c hc

theorem isWhiteSpace_blank : Unicode.isWhiteSpace ' ' = true :=
  isWhiteSpace_iff.2 ⟨(0x20, 0x20), by simp [Unicode.whiteSpace], by decide⟩

/-- A line that holds only words separated by blanks has these words. -/
theorem words_intercalate {row : List String} (h : ∀ word ∈ row, IsWord word) :
    words ([' '].intercalate (row.map String.toList)) = row := by
  have hsemicolon : ∀ c ∈ [' '].intercalate (row.map String.toList), (c != ';') = true := by
    intro c hc
    rcases eq_blank_or_inWord h hc with rfl | hc
    · rfl
    · simpa using hc.2
  rw [words, List.takeWhile_eq_self_iff.2 hsemicolon, splitAtAll_eq_splitOnP,
    filter_splitOnP_intercalate isWhiteSpace_blank, List.map_map]
  · simp [Function.comp_def]
  · intro part hpart
    obtain ⟨word, hword, rfl⟩ := List.mem_map.1 hpart
    exact ⟨(h word hword).ne_empty, fun c hc => ((h word hword).inWord c hc).1⟩

/-- Blanks in front of the first word of a line do not count. -/
theorem words_replicate_append (n : Nat) (line : List Char) :
    words (List.replicate n ' ' ++ line) = words line := by
  induction n with
  | zero => rfl
  | succ n ih =>
    rw [List.replicate_succ, List.cons_append, words, List.takeWhile_cons_of_pos (by decide),
      splitAtAll_eq_splitOnP, List.splitOnP_cons_eq_if_modifyHead, if_pos isWhiteSpace_blank,
      List.filter_cons_of_neg (by simp), ← splitAtAll_eq_splitOnP, ← words, ih]

/-! ### Statements -/

/-- The statements that a line can hold: all words are words of a line, and an operation does not
look like a label. -/
def Statement.WellFormed : Statement → Prop
  | label name => IsWord name
  | operation word operands =>
    IsWord word ∧ labelName? word = none ∧ ∀ operand ∈ operands, IsWord operand

/-- Statements on lines of their own, of which the first is `line`. -/
def locate (line : Nat) : List Statement → List Located
  | [] => []
  | statement :: rest => ⟨line, statement⟩ :: locate (line + 1) rest

theorem labelName?_append_colon {name : String} (h : name.toList ≠ []) :
    labelName? (name ++ ":") = some name := by
  obtain ⟨c, rest, hrev⟩ := List.exists_cons_of_ne_nil (List.reverse_ne_nil_iff.2 h)
  have hlist : (name ++ ":").toList.reverse = ':' :: c :: rest := by
    rw [String.toList_append, List.reverse_append, hrev]
    rfl
  rw [labelName?, hlist]
  show some (String.ofList (c :: rest).reverse) = some name
  rw [← hrev, List.reverse_reverse, String.ofList_toList]

/-- The words on the line of a statement. -/
def Statement.words : Statement → List String
  | label name => [name ++ ":"]
  | operation word operands => word :: operands

/-- The number of blanks in front of them. -/
def Statement.indent : Statement → Nat
  | label _ => 0
  | operation _ _ => 4

/-- A statement without the end of its line. -/
def Statement.line (s : Statement) : List Char :=
  List.replicate s.indent ' ' ++ [' '].intercalate (s.words.map String.toList)

theorem Statement.toList_render (s : Statement) : s.render.toList = s.line ++ ['\n'] := by
  cases s with
  | label name => simp [render, line, indent, words]
  | operation word operands =>
    simp [render, line, indent, words, List.replicate]

theorem IsWord.append_colon {name : String} (h : IsWord name) : IsWord (name ++ ":") := by
  refine ⟨by simp [String.toList_append], fun c hc => ?_⟩
  rw [String.toList_append, List.mem_append] at hc
  rcases hc with hc | hc
  · exact h.inWord c hc
  · obtain rfl := List.mem_singleton.1 hc
    exact inWord_of_toNat (by decide) (by decide)

theorem InWord.ne_newline {c : Char} (h : InWord c) : c ≠ '\n' := by
  rintro rfl
  have hblank : Unicode.isWhiteSpace '\n' = true :=
    isWhiteSpace_iff.2 ⟨(0x9, 0xd), by simp [Unicode.whiteSpace], by decide⟩
  exact Bool.false_ne_true (h.1.symm.trans hblank)

namespace Statement.WellFormed

variable {s : Statement} (h : s.WellFormed)
include h

theorem isWord : ∀ word ∈ s.words, IsWord word := by
  cases s with
  | label name => exact List.forall_mem_singleton.2 (IsWord.append_colon h)
  | operation word operands => exact List.forall_mem_cons.2 ⟨h.1, h.2.2⟩

/-- A statement ends where its line ends. -/
theorem ne_newline : ∀ c ∈ s.line, (c == '\n') = false := by
  intro c hc
  rw [line, List.mem_append] at hc
  rcases hc with hc | hc
  · obtain rfl := List.eq_of_mem_replicate hc
    rfl
  · rcases eq_blank_or_inWord h.isWord hc with rfl | hc
    · rfl
    · exact beq_eq_false_iff_ne.2 hc.ne_newline

/-- The line of a statement writes this statement. -/
theorem ofWords_line (k : Nat) : ofWords k (Listing.words s.line) = [⟨k, s⟩] := by
  rw [line, words_replicate_append, words_intercalate h.isWord]
  cases s with
  | label name => rw [words, ofWords, labelName?_append_colon (IsWord.ne_empty h), ofWords]
  | operation word operands => rw [words, ofWords, h.2.1]

end Statement.WellFormed

/-- The lines of what is written for statements. -/
theorem lines_render {statements : List Statement} (h : ∀ s ∈ statements, s.WellFormed) :
    splitAtAll (· == '\n') (render statements).toList = statements.map Statement.line ++ [[]] := by
  rw [render, String.toList_join, splitAtAll_eq_splitOnP]
  induction statements with
  | nil => rfl
  | cons s statements ih =>
    obtain ⟨hs, h⟩ := List.forall_mem_cons.1 h
    rw [List.map_cons, List.flatMap_cons, s.toList_render, List.append_assoc,
      List.singleton_append, List.splitOnP_append_cons_of_forall_mem hs.ne_newline '\n' rfl,
      ih h]
    rfl

/-- What is written for statements is read again. -/
theorem scan_render {statements : List Statement} (h : ∀ s ∈ statements, s.WellFormed) :
    scan (render statements) = locate 1 statements := by
  have hlines (k : Nat) : ((statements.map Statement.line ++ [[]]).zipIdx k).flatMap
      (fun (line, ix) => ofWords (ix + 1) (words line)) = locate (k + 1) statements := by
    induction statements generalizing k with
    | nil => rfl
    | cons s statements ih =>
      obtain ⟨hs, h⟩ := List.forall_mem_cons.1 h
      rw [List.map_cons, List.cons_append, List.zipIdx_cons, List.flatMap_cons, ih h]
      exact congrArg (· ++ _) (hs.ofWords_line (k + 1))
  rw [scan, lines_render h]
  exact hlines 0

end Lockstep.Listing
