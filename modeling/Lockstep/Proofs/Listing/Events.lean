import Lockstep.Listing.Assembly
import Lockstep.Proofs.Listing.Statement

/-!
# The events of a listing

Scanning finds the events of a text, and there are no others. On which lines they stand does not
depend on how a line is written, and not even the line matters when only the statements are asked
for.

* `Listing.labelName?_eq_some_iff`: the words that are labels.
* `Listing.writes_iff`: the statements of a line.
* `Listing.events_iff`: the events of a text.
* `Listing.wordsOf_comment`, `Listing.wordsOf_blank`: what holds no words.
* `Listing.Rearranges.map_statement_scan`: lines that differ in layout alone.
-/

namespace Lockstep.Listing

/-! ### Words and lines -/

theorem words_eq_wordsOf (line : List Char) : words line = wordsOf line := by
  rw [words, splitAtAll_eq_splitOnP, wordsOf]

theorem labelName?_eq_some_iff {word name : String} :
    labelName? word = some name ↔ name ≠ "" ∧ word = name ++ ":" := by
  constructor
  · intro h
    unfold labelName? at h
    split at h
    · next c rest hrev =>
      obtain rfl := Option.some.inj h
      rw [List.reverse_eq_iff, List.reverse_cons] at hrev
      refine ⟨by simp, String.toList_inj.1 ?_⟩
      rw [hrev, String.toList_append, String.toList_ofList]
      rfl
    · cases h
  · rintro ⟨hne, rfl⟩
    exact labelName?_append_colon fun hnil => hne (String.toList_eq_nil_iff.1 hnil)

theorem labelName?_eq_none_iff {word : String} :
    labelName? word = none ↔ ∀ name, word = name ++ ":" → name = "" := by
  rw [Option.eq_none_iff_forall_ne_some]
  refine forall_congr' fun name => ?_
  rw [Ne, labelName?_eq_some_iff]
  exact ⟨fun h heq => by_contra fun hne => h ⟨hne, heq⟩, fun h ⟨hne, heq⟩ => hne (h heq)⟩

/-- The statements of a line do not depend on the number of the line. -/
def statementsOf (row : List String) : List Statement := (ofWords 0 row).map Located.statement

theorem ofWords_eq (line : Nat) (row : List String) :
    ofWords line row = (statementsOf row).map (Located.mk line) := by
  rw [statementsOf]
  induction row with
  | nil => rfl
  | cons word rest ih =>
    rw [ofWords, ofWords]
    cases labelName? word with
    | none => rfl
    | some name => exact congrArg (_ :: ·) ih

theorem statementsOf_label {name : String} (hne : name ≠ "") (row : List String) :
    statementsOf ((name ++ ":") :: row) = .label name :: statementsOf row := by
  rw [statementsOf, ofWords, labelName?_eq_some_iff.2 ⟨hne, rfl⟩]
  rfl

theorem statementsOf_operation {word : String} (h : ∀ name, word = name ++ ":" → name = "")
    (operands : List String) : statementsOf (word :: operands) = [.operation word operands] := by
  rw [statementsOf, ofWords, labelName?_eq_none_iff.2 h]
  rfl

/-- The words of a line write the statements that are read from it, and no others. -/
theorem writes_iff {row : List String} {statements : List Statement} :
    Writes row statements ↔ statements = statementsOf row := by
  constructor
  · intro h
    induction h with
    | nil => rfl
    | label hne _ ih => rw [statementsOf_label hne, ih]
    | operation hword => rw [statementsOf_operation hword]
  · rintro rfl
    induction row with
    | nil => exact .nil
    | cons word rest ih =>
      cases hlabel : labelName? word with
      | none =>
        rw [labelName?_eq_none_iff] at hlabel
        rw [statementsOf_operation hlabel]
        exact .operation hlabel
      | some name =>
        obtain ⟨hne, rfl⟩ := labelName?_eq_some_iff.1 hlabel
        rw [statementsOf_label hne]
        exact .label hne ih

/-! ### Texts -/

/-- The events of lines, of which the first has the number `line`. -/
def eventsFrom (line : Nat) : List (List Char) → List Located
  | [] => []
  | chars :: rest =>
    (statementsOf (wordsOf chars)).map (Located.mk line) ++ eventsFrom (line + 1) rest

theorem linesWrite_iff {line : Nat} {lines : List (List Char)} {events : List Located} :
    LinesWrite line lines events ↔ events = eventsFrom line lines := by
  constructor
  · intro h
    induction h with
    | nil => rfl
    | cons hline _ ih => rw [eventsFrom, writes_iff.1 hline, ih]
  · rintro rfl
    induction lines generalizing line with
    | nil => exact .nil
    | cons chars rest ih => exact .cons (writes_iff.2 rfl) ih

theorem scan_eq (text : String) : scan text = eventsFrom 1 (linesOf text) := by
  have h (n : Nat) (lines : List (List Char)) : (lines.zipIdx n).flatMap
      (fun entry => ofWords (entry.2 + 1) (words entry.1)) = eventsFrom (n + 1) lines := by
    induction lines generalizing n with
    | nil => rfl
    | cons line rest ih =>
      rw [List.zipIdx_cons, List.flatMap_cons, ih, eventsFrom, ← ofWords_eq, words_eq_wordsOf]
  rw [scan, splitAtAll_eq_splitOnP]
  exact h 0 (linesOf text)

/-- Scanning a text finds its events. -/
theorem events_iff {text : String} {events : List Located} :
    Events text events ↔ events = scan text := by
  rw [Events, linesWrite_iff, scan_eq]

/-! ### Layout -/

/-- A comment holds no words. -/
theorem wordsOf_comment (code comment : List Char) :
    wordsOf (code ++ ';' :: comment) = wordsOf code := by
  have htake : (code ++ ';' :: comment).takeWhile (· != ';') = code.takeWhile (· != ';') := by
    induction code with
    | nil => rfl
    | cons c code ih => rw [List.cons_append, List.takeWhile_cons, List.takeWhile_cons, ih]
  rw [wordsOf, htake, wordsOf]

/-- Neither do blanks. -/
theorem wordsOf_blank {line : List Char} (h : ∀ c ∈ line, Unicode.isWhiteSpace c = true) :
    wordsOf line = [] := by
  have hparts {cs : List Char} (h : ∀ c ∈ cs, Unicode.isWhiteSpace c = true) :
      (cs.splitOnP Unicode.isWhiteSpace).filter (!·.isEmpty) = [] := by
    induction cs with
    | nil => rfl
    | cons c cs ih =>
      obtain ⟨hc, hcs⟩ := List.forall_mem_cons.1 h
      rw [List.splitOnP_cons_eq_if_modifyHead, if_pos hc, List.filter_cons_of_neg (by simp), ih hcs]
  rw [wordsOf, hparts fun c hc => h c ((List.takeWhile_sublist _).subset hc)]
  rfl

theorem map_statement_eventsFrom (line : Nat) (lines : List (List Char)) :
    (eventsFrom line lines).map Located.statement =
      lines.flatMap fun chars => statementsOf (wordsOf chars) := by
  induction lines generalizing line with
  | nil => rfl
  | cons chars rest ih =>
    rw [eventsFrom, List.map_append, ih, List.map_map, List.flatMap_cons]
    exact congrArg (· ++ _) (List.map_id _)

/-- Lines that differ in layout alone write the same statements. -/
theorem Rearranges.flatMap_statementsOf {lines lines' : List (List Char)}
    (h : Rearranges lines lines') : (lines.flatMap fun line => statementsOf (wordsOf line)) =
      lines'.flatMap fun line => statementsOf (wordsOf line) := by
  induction h with
  | nil => rfl
  | blank hline =>
    rw [List.flatMap_cons, wordsOf_blank hline]
    rfl
  | comment => rw [List.flatMap_cons, List.flatMap_cons, wordsOf_comment]
  | line hline _ ih => rw [List.flatMap_cons, List.flatMap_cons, hline, ih]
  | label hne hline hfirst =>
    rw [List.flatMap_cons, List.flatMap_cons, List.flatMap_cons, hline, hfirst,
      statementsOf_label hne, statementsOf_label hne]
    rfl
  | symm _ ih => exact ih.symm
  | trans _ _ ih ih' => exact ih.trans ih'

/-- So do texts with such lines. -/
theorem Rearranges.map_statement_scan {text text' : String}
    (h : Rearranges (linesOf text) (linesOf text')) :
    (scan text).map Located.statement = (scan text').map Located.statement := by
  rw [scan_eq, scan_eq, map_statement_eventsFrom, map_statement_eventsFrom, h.flatMap_statementsOf]

end Lockstep.Listing
