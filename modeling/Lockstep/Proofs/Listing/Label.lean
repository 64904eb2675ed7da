import Lockstep.Listing.Printer
import Lockstep.Listing.Reader
import Lockstep.Proofs.Listing.Statement
import Mathlib.Data.List.Nodup

/-!
# Labels of a written program

Every instruction of a program that some instruction names has a label of its own, and the labels
are found again when the statements of the program are read: each once, and each with the position
of its instruction.

* `Listing.numberOf?`: the number of the label of an instruction; no two instructions share one.
* `Listing.lineOf`: the line of an instruction.
* `Listing.locate_statementsFrom`: the operations and the labels that are found in the statements
  of a program.
* `Listing.readTarget_writeTarget`: a target is read back.
-/

namespace Lockstep.Listing

/-! ### Numbers of labels -/

/-- Marks that are made one after the other. -/
theorem getElem?_foldl_mark (targets : List Nat) (marks : Array Bool) (q : Nat) :
    (targets.foldl (fun marks t => marks.setIfInBounds t true) marks)[q]? =
      if q ∈ targets then marks[q]?.map fun _ => true else marks[q]? := by
  induction targets generalizing marks with
  | nil => simp
  | cons t targets ih =>
    rw [List.foldl_cons, ih, Array.getElem?_setIfInBounds]
    by_cases hq : t = q
    · subst hq
      by_cases hlt : t < marks.size
      · simp [hlt]
      · simp [hlt]
    · simp [hq, Ne.symm hq]

/-- The instructions that are marked as named are those that some instruction names. -/
theorem getElem?_named_eq_true_iff {body : Array Instruction} {q : Nat} :
    (named body)[q]? = some true ↔ q < body.size ∧ ∃ i ∈ body, q ∈ i.targets := by
  have hmem : q ∈ body.toList.flatMap Instruction.targets ↔ ∃ i ∈ body, q ∈ i.targets := by
    simp
  rw [named, ← Array.foldl_toList, ← List.foldl_flatMap, getElem?_foldl_mark, ← hmem]
  by_cases hlt : q < body.size
  · simp [hlt]
  · simp [hlt]

theorem getElem?_numberFrom (n : Nat) (marks : List Bool) (q : Nat) :
    (numberFrom n marks)[q]? = marks[q]?.map fun mark =>
      if mark then some (n + (marks.take q).count true) else none := by
  induction marks generalizing n q with
  | nil => rfl
  | cons mark marks ih =>
    cases q with
    | zero => cases mark <;> rfl
    | succ q =>
      cases mark with
      | false => simpa [numberFrom] using ih n q
      | true => simpa [numberFrom, Nat.add_assoc, Nat.add_comm 1] using ih (n + 1) q

/-- The number of the label of an instruction, if it has one. -/
def numberOf? (body : Array Instruction) (q : Nat) : Option Nat := (labelNumbers body)[q]?.join

/-- The number of labels in front of the instruction at `q`. -/
def labelsBefore (body : Array Instruction) (q : Nat) : Nat :=
  ((named body).toList.take q).count true

/-- Labels are numbered from one in the order of the instructions. -/
theorem numberOf?_eq (body : Array Instruction) (q : Nat) :
    numberOf? body q =
      if (named body)[q]? = some true then some (labelsBefore body q + 1) else none := by
  have h := getElem?_numberFrom 1 (named body).toList q
  rw [numberOf?, labelNumbers, List.getElem?_toArray, h, labelsBefore, Array.getElem?_toList]
  rcases (named body)[q]? with _ | mark
  · rfl
  · cases mark with
    | false => rfl
    | true => simp [Nat.add_comm]

theorem labelsBefore_succ (body : Array Instruction) (q : Nat) :
    labelsBefore body (q + 1) = labelsBefore body q + (numberOf? body q).toList.length := by
  rw [numberOf?_eq, labelsBefore, List.take_add_one, List.count_append, ← labelsBefore,
    Array.getElem?_toList]
  rcases (named body)[q]? with _ | mark
  · rfl
  · cases mark <;> rfl

theorem labelsBefore_le {body : Array Instruction} {q r : Nat} (h : q ≤ r) :
    labelsBefore body q ≤ labelsBefore body r :=
  (List.take_prefix_take_left h).sublist.count_le true

theorem number_lt_number {body : Array Instruction} {q r m n : Nat} (hlt : q < r)
    (hq : numberOf? body q = some m) (hr : numberOf? body r = some n) : m < n := by
  have hnumber {q m : Nat} (h : numberOf? body q = some m) : m = labelsBefore body q + 1 := by
    rw [numberOf?_eq] at h
    split at h
    case isTrue => exact (Option.some.inj h).symm
    case isFalse => cases h
  have hsucc := labelsBefore_succ body q
  have hle : labelsBefore body (q + 1) ≤ labelsBefore body r := labelsBefore_le hlt
  rw [hq, Option.toList_some, List.length_singleton] at hsucc
  have hm := hnumber hq
  have hn := hnumber hr
  omega

/-- No two instructions share a label. -/
theorem numberOf?_injective {body : Array Instruction} {q r n : Nat}
    (hq : numberOf? body q = some n) (hr : numberOf? body r = some n) : q = r := by
  rcases Nat.lt_trichotomy q r with hlt | heq | hlt
  · exact absurd (number_lt_number hlt hq hr) (Nat.lt_irrefl n)
  · exact heq
  · exact absurd (number_lt_number hlt hr hq) (Nat.lt_irrefl n)

/-- An instruction that is named has a label. -/
theorem exists_numberOf? {body : Array Instruction} {q : Nat} (hq : q < body.size)
    (h : ∃ i ∈ body, q ∈ i.targets) : ∃ n, numberOf? body q = some n := by
  rw [numberOf?_eq, if_pos (getElem?_named_eq_true_iff.2 ⟨hq, h⟩)]
  exact ⟨_, rfl⟩

/-- Only an instruction of the program has a label. -/
theorem lt_size_of_numberOf? {body : Array Instruction} {q n : Nat}
    (h : numberOf? body q = some n) : q < body.size := by
  rw [numberOf?_eq] at h
  split at h
  case isTrue hmark => exact (getElem?_named_eq_true_iff.1 hmark).1
  case isFalse => cases h

/-! ### The statements of a program, read again -/

/-- The operation of an instruction. -/
def opcode : Instruction → Opcode
  | .char _ => .char
  | .any => .any
  | .inside _ => .range
  | .outside _ => .nrange
  | .accept => .accept
  | .jump _ => .jump
  | .split _ _ => .split
  | .save _ => .save

/-- The words behind the operation of an instruction. -/
def operandsOf (numbers : Array (Option Nat)) : Instruction → List String
  | .char c => [writeChar c]
  | .inside ranges | .outside ranges => writeRanges ranges
  | .jump target => [writeTarget numbers target]
  | .split first second => [writeTarget numbers first, writeTarget numbers second]
  | .save slot => [toString slot]
  | .any | .accept => []

theorem operation_eq (numbers : Array (Option Nat)) (i : Instruction) :
    operation numbers i = .operation (opcode i).name (operandsOf numbers i) := by
  cases i <;> rfl

/-- The statements of instructions, of which the first has position `q`. -/
def statementsFrom (body : Array Instruction) (q : Nat) : List Instruction → List Statement
  | [] => []
  | i :: rest => statementsAt (labelNumbers body) i q ++ statementsFrom body (q + 1) rest

theorem statements_eq (p : Program) : statements p = statementsFrom p.body 0 p.body.toList := by
  have h (q : Nat) (is : List Instruction) : (is.zipIdx q).flatMap
      (fun entry => statementsAt (labelNumbers p.body) entry.1 entry.2) =
        statementsFrom p.body q is := by
    induction is generalizing q with
    | nil => rfl
    | cons i rest ih => exact congrArg (_ ++ ·) (ih (q + 1))
  exact h 0 _

/-- The line of an instruction: it stands behind the instructions and labels before it, and behind
its own label. -/
def lineOf (body : Array Instruction) (q : Nat) : Nat := q + labelsBefore body (q + 1) + 1

/-- The number of the last line in front of the statements of an instruction. -/
def linesBefore (body : Array Instruction) (q : Nat) : Nat := q + labelsBefore body q

/-- The operations of instructions, of which the first has position `q`. -/
def operationsFrom (body : Array Instruction) (q : Nat) : List Instruction → List Operation
  | [] => []
  | i :: rest => ⟨lineOf body q, (opcode i).name, operandsOf (labelNumbers body) i⟩ ::
      operationsFrom body (q + 1) rest

/-- The labels of `n` instructions, of which the first has position `q`. -/
def labelsFrom (body : Array Instruction) (q n : Nat) : List Label :=
  (List.range' q n).filterMap fun q =>
    (numberOf? body q).map fun number => ⟨labelOfNumber number, linesBefore body q + 1, q⟩

theorem lineOf_eq (body : Array Instruction) (q : Nat) :
    lineOf body q = linesBefore body q + (numberOf? body q).toList.length + 1 := by
  rw [lineOf, labelsBefore_succ, ← Nat.add_assoc, ← linesBefore]

theorem linesBefore_succ (body : Array Instruction) (q : Nat) :
    linesBefore body (q + 1) = lineOf body q := Nat.add_right_comm q 1 _

/-- The statements of instructions hold their operations and their labels. -/
theorem locate_statementsFrom (body : Array Instruction) (q : Nat) (is : List Instruction) :
    operations (locate (linesBefore body q + 1) (statementsFrom body q is)) =
        operationsFrom body q is ∧
      labels q (locate (linesBefore body q + 1) (statementsFrom body q is)) =
        labelsFrom body q is.length := by
  induction is generalizing q with
  | nil => exact ⟨rfl, rfl⟩
  | cons i rest ih =>
    have hline := lineOf_eq body q
    obtain ⟨hoperations, hlabels⟩ := ih (q + 1)
    rw [linesBefore_succ] at hoperations hlabels
    rw [statementsFrom, statementsAt, operation_eq, ← numberOf?, operationsFrom, labelsFrom,
      List.length_cons, List.range'_succ, List.filterMap_cons, ← labelsFrom, ← hoperations,
      ← hlabels]
    cases hnumber : numberOf? body q with
    | none =>
      rw [hnumber, Option.toList_none, List.length_nil, Nat.add_zero] at hline
      rw [← hline]
      exact ⟨rfl, rfl⟩
    | some number =>
      rw [hnumber, Option.toList_some, List.length_singleton] at hline
      rw [hline]
      exact ⟨rfl, rfl⟩

/-! ### Names of labels -/

theorem labelOfNumber_injective {m n : Nat} (h : labelOfNumber m = labelOfNumber n) : m = n := by
  rw [labelOfNumber, labelOfNumber, String.append_right_inj] at h
  have hm := writesNumber_toString m
  rw [h] at hm
  exact hm.unique (writesNumber_toString n)

/-- A label is never taken for a number. -/
theorem labelOfNumber_ne_toString (m n : Nat) : labelOfNumber m ≠ toString n := by
  intro h
  have hmem : 'L' ∈ (toString n).toList := by
    rw [← h, labelOfNumber, String.toList_append]
    exact List.mem_append_left _ (List.mem_singleton_self _)
  cases isDigit_of_mem_toString hmem

theorem isWord_labelOfNumber (n : Nat) : IsWord (labelOfNumber n) := by
  refine ⟨by simp [labelOfNumber, String.toList_append], fun c hc => ?_⟩
  rw [labelOfNumber, String.toList_append, List.mem_append] at hc
  rcases hc with hc | hc
  · obtain rfl := List.mem_singleton.1 hc
    exact inWord_of_toNat (by decide) (by decide)
  · exact (isWord_toString n).inWord c hc

theorem mem_labelsFrom {body : Array Instruction} {q n : Nat} {label : Label} :
    label ∈ labelsFrom body q n ↔ ∃ r, (q ≤ r ∧ r < q + n) ∧ ∃ number,
      numberOf? body r = some number ∧
        ⟨labelOfNumber number, linesBefore body r + 1, r⟩ = label := by
  simp [labelsFrom, List.mem_filterMap]

/-- No two labels have the same name. -/
theorem pairwise_labelsFrom (body : Array Instruction) (q n : Nat) :
    (labelsFrom body q n).Pairwise fun l l' => l.name ≠ l'.name := by
  refine List.Pairwise.filterMap _ ?_ List.pairwise_lt_range'
  rintro r r' hlt label hlabel label' hlabel' heq
  obtain ⟨m, hm, rfl⟩ := Option.map_eq_some_iff.1 hlabel
  obtain ⟨m', hm', rfl⟩ := Option.map_eq_some_iff.1 hlabel'
  obtain rfl := labelOfNumber_injective heq
  exact Nat.ne_of_lt hlt (numberOf?_injective hm hm')

theorem firstRepeated?_eq_none {labels : List Label} {seen : List String}
    (h : labels.Pairwise fun l l' => l.name ≠ l'.name) (hseen : ∀ l ∈ labels, l.name ∉ seen) :
    firstRepeated? seen labels = none := by
  induction labels generalizing seen with
  | nil => rfl
  | cons label rest ih =>
    obtain ⟨hlabel, hrest⟩ := List.pairwise_cons.1 h
    obtain ⟨hnot, hseen⟩ := List.forall_mem_cons.1 hseen
    rw [firstRepeated?, if_neg hnot]
    refine ih hrest fun l hl hmem => ?_
    rcases List.mem_cons.1 hmem with heq | hmem
    · exact hlabel l hl heq.symm
    · exact hseen l hl hmem

/-! ### Targets -/

/-- The position of a label is found by its name. -/
theorem readTarget_labelOfNumber {body : Array Instruction} {t number : Nat}
    (h : numberOf? body t = some number) :
    readTarget (labelsFrom body 0 body.size) (labelOfNumber number) = .ok t := by
  have hlt : 0 ≤ t ∧ t < 0 + body.size := ⟨Nat.zero_le t, by simpa using lt_size_of_numberOf? h⟩
  rw [readTarget]
  cases hfind : (labelsFrom body 0 body.size).find? (·.name == labelOfNumber number) with
  | none =>
    have hmem := mem_labelsFrom.2 ⟨t, hlt, number, h, rfl⟩
    exact absurd (beq_self_eq_true _) (List.find?_eq_none.1 hfind _ hmem)
  | some label =>
    obtain ⟨r, -, m, hm, rfl⟩ := mem_labelsFrom.1 (List.mem_of_find?_eq_some hfind)
    have hname := List.find?_some hfind
    obtain rfl := labelOfNumber_injective (eq_of_beq hname)
    exact congrArg Except.ok (numberOf?_injective hm h)

/-- A target without a label is read as a number. -/
theorem readTarget_toString (body : Array Instruction) {t : Nat} (h : t ≤ maxWord) :
    readTarget (labelsFrom body 0 body.size) (toString t) = .ok t := by
  have hnone : (labelsFrom body 0 body.size).find? (·.name == toString t) = none := by
    refine List.find?_eq_none.2 fun label hlabel heq => ?_
    obtain ⟨r, -, m, -, rfl⟩ := mem_labelsFrom.1 hlabel
    exact labelOfNumber_ne_toString m t (eq_of_beq heq)
  rw [readTarget, hnone, readNumber?_toString, if_pos h]
  rfl

/-- A target that some instruction names is read back, if it is a word of the machine in case it
lies outside the program. -/
theorem readTarget_writeTarget {body : Array Instruction} {t : Nat}
    (hnamed : ∃ i ∈ body, t ∈ i.targets) (hfits : t < body.size ∨ t ≤ maxWord) :
    readTarget (labelsFrom body 0 body.size) (writeTarget (labelNumbers body) t) = .ok t := by
  rw [writeTarget, ← numberOf?]
  cases hnumber : numberOf? body t with
  | none =>
    refine readTarget_toString body (hfits.resolve_left fun hlt => ?_)
    obtain ⟨number, h⟩ := exists_numberOf? hlt hnamed
    rw [hnumber] at h
    cases h
  | some number => exact readTarget_labelOfNumber hnumber

end Lockstep.Listing
