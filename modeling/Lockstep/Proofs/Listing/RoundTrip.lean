import Lockstep.Proofs.Failure
import Lockstep.Proofs.Listing.Label

/-!
# Programs read back

The text form of a program holds all of it: reading the text restores the program, as long as its
slots are not too large for a listing. Otherwise the first such slot is reported.

* `Program.TargetsFit`: all positions that the program names can be written.
* `Listing.readOperation_of_slotFits`: one instruction is read back.
* `Listing.line_lineOf`: the line where an instruction stands.
* `Listing.fits_of_ofListing`: what is read can be written.
* `Program.ofListing_listing`: the programs that are read back, and the error for all others.
-/

namespace Lockstep

/-- The positions that a program names lie in the program or are words of the machine. -/
def Program.TargetsFit (p : Program) : Prop :=
  ∀ i ∈ p.body, ∀ t ∈ i.targets, t < p.size ∨ t ≤ maxWord

/-- If an instruction saves to a slot, a listing can name this slot. -/
def Instruction.SlotFits (i : Instruction) : Prop :=
  ∀ slot, i = .save slot → slot ≤ Listing.maxSlot

namespace Listing

/-! ### Statements of a program -/

theorem isWord_name (op : Opcode) : IsWord op.name := by
  have hne : op.name.toList.isEmpty = false := by cases op <;> rfl
  have hname : op.name.toList.all
      (fun c => (0x21 ≤ c.toNat ∧ c.toNat ≤ 0x7e) ∧ c ≠ ';') = true := by
    cases op <;> rfl
  refine ⟨List.isEmpty_eq_false_iff.1 hne, fun c hc => ?_⟩
  obtain ⟨hrange, hsemicolon⟩ := of_decide_eq_true (List.all_eq_true.1 hname c hc)
  exact inWord_of_toNat hrange hsemicolon

theorem isWord_writeTarget (numbers : Array (Option Nat)) (t : Nat) :
    IsWord (writeTarget numbers t) := by
  rw [writeTarget]
  split
  · exact isWord_labelOfNumber _
  · exact isWord_toString t

theorem isWord_of_mem_operandsOf {numbers : Array (Option Nat)} {i : Instruction} :
    ∀ word ∈ operandsOf numbers i, IsWord word := by
  have hranges (ranges : List CharRange) : ∀ word ∈ writeRanges ranges, IsWord word := by
    intro word hword
    obtain ⟨range, -, hword⟩ := List.mem_flatMap.1 hword
    simp only [List.mem_cons, List.not_mem_nil, or_false] at hword
    rcases hword with rfl | rfl
    · exact isWord_writeChar _
    · exact isWord_writeChar _
  cases i with
  | char c => simpa [operandsOf] using isWord_writeChar c
  | any | accept => simp [operandsOf]
  | inside ranges | outside ranges => exact hranges ranges
  | jump target => simpa [operandsOf] using isWord_writeTarget numbers target
  | split first second =>
    simpa [operandsOf] using ⟨isWord_writeTarget numbers first, isWord_writeTarget numbers second⟩
  | save slot => simpa [operandsOf] using isWord_toString slot

theorem wellFormed_operation (numbers : Array (Option Nat)) (i : Instruction) :
    (operation numbers i).WellFormed := by
  have hlabel (op : Opcode) : labelName? op.name = none := by cases op <;> rfl
  rw [operation_eq]
  exact ⟨isWord_name _, hlabel _, isWord_of_mem_operandsOf⟩

/-- Each statement of a program fits on its line. -/
theorem wellFormed_of_mem_statementsFrom {body : Array Instruction} {q : Nat}
    {is : List Instruction} : ∀ s ∈ statementsFrom body q is, s.WellFormed := by
  induction is generalizing q with
  | nil => simp [statementsFrom]
  | cons i rest ih =>
    intro s hs
    rw [statementsFrom, List.mem_append, statementsAt] at hs
    rcases hs with hs | hs
    · split at hs
      · rcases List.mem_cons.1 hs with rfl | hs
        · exact isWord_labelOfNumber _
        · obtain rfl := List.mem_singleton.1 hs
          exact wellFormed_operation _ i
      · obtain rfl := List.mem_singleton.1 hs
        exact wellFormed_operation _ i
    · exact ih s hs

/-- The statements that are read from the text form of a program. -/
theorem scan_listing (p : Program) :
    scan p.listing = locate 1 (statementsFrom p.body 0 p.body.toList) := by
  rw [Program.listing, statements_eq, scan_render wellFormed_of_mem_statementsFrom]

theorem operations_scan_listing (p : Program) :
    operations (scan p.listing) = operationsFrom p.body 0 p.body.toList := by
  rw [scan_listing]
  exact (locate_statementsFrom p.body 0 p.body.toList).1

theorem labels_scan_listing (p : Program) :
    labels 0 (scan p.listing) = labelsFrom p.body 0 p.body.size := by
  rw [scan_listing, ← Array.length_toList]
  exact (locate_statementsFrom p.body 0 p.body.toList).2

/-! ### Lines -/

theorem mem_of_mem_operations {o : Operation} {located : List Located}
    (h : o ∈ operations located) : ⟨o.line, .operation o.word o.operands⟩ ∈ located := by
  induction located with
  | nil => cases h
  | cons l rest ih =>
    rcases l with ⟨line, name | ⟨word, operands⟩⟩
    · exact List.mem_cons_of_mem _ (ih h)
    · rcases List.mem_cons.1 h with rfl | h
      · exact List.mem_cons_self
      · exact List.mem_cons_of_mem _ (ih h)

theorem getElem?_of_mem_locate {l : Located} {line : Nat} {ss : List Statement}
    (h : l ∈ locate line ss) : line ≤ l.line ∧ ss[l.line - line]? = some l.statement := by
  induction ss generalizing line with
  | nil => cases h
  | cons s rest ih =>
    rcases List.mem_cons.1 h with rfl | h
    · simp
    · obtain ⟨hle, hget⟩ := ih h
      obtain ⟨k, hk⟩ := Nat.exists_eq_add_of_le hle
      refine ⟨by omega, ?_⟩
      rw [show l.line - line = k + 1 by omega, List.getElem?_cons_succ, ← hget]
      congr 1
      omega

theorem getElem?_operationsFrom (body : Array Instruction) (q : Nat) (is : List Instruction)
    (ix : Nat) : (operationsFrom body q is)[ix]? = is[ix]?.map fun i =>
      ⟨lineOf body (q + ix), (opcode i).name, operandsOf (labelNumbers body) i⟩ := by
  induction is generalizing q ix with
  | nil => rfl
  | cons i rest ih =>
    cases ix with
    | zero => rfl
    | succ ix =>
      rw [operationsFrom, List.getElem?_cons_succ, List.getElem?_cons_succ, ih, Nat.add_right_comm,
        Nat.add_assoc]

/-- The text form of a program has each instruction on its line. -/
theorem line_lineOf {p : Program} {ix : Nat} {i : Instruction} (h : p.body[ix]? = some i) :
    (p.listing.toList.splitOn '\n')[lineOf p.body ix - 1]? =
      some (operation (labelNumbers p.body) i).line := by
  have hoperation : (operations (scan p.listing))[ix]? = some
      ⟨lineOf p.body ix, (opcode i).name, operandsOf (labelNumbers p.body) i⟩ := by
    rw [operations_scan_listing, getElem?_operationsFrom, Nat.zero_add, Array.getElem?_toList, h]
    rfl
  have hmem := mem_of_mem_operations (List.mem_of_getElem? hoperation)
  rw [scan_listing] at hmem
  obtain ⟨-, hget⟩ := getElem?_of_mem_locate hmem
  rw [List.splitOn, ← splitAtAll_eq_splitOnP, Program.listing, statements_eq,
    lines_render wellFormed_of_mem_statementsFrom, operation_eq]
  refine List.getElem?_append_left ?_ |>.trans ?_
  · obtain ⟨hlt, -⟩ := List.getElem?_eq_some_iff.1 hget
    simpa using hlt
  · rw [List.getElem?_map, hget]
    rfl

/-! ### Instructions -/

theorem readChar_writeChar (c : Char) : readChar (writeChar c) = .ok c := by
  rw [readChar, readChar?_writeChar]
  rfl

theorem readRanges_writeRanges (ranges : List CharRange) :
    readRanges (writeRanges ranges) = .ok ranges := by
  induction ranges with
  | nil => rfl
  | cons range ranges ih =>
    show readRanges (writeChar range.lo :: writeChar range.hi :: writeRanges ranges) = _
    rw [readRanges, readChar_writeChar, readChar_writeChar, ih]
    rfl

theorem even_length_writeRanges (ranges : List CharRange) :
    (writeRanges ranges).length % 2 = 0 := by
  induction ranges with
  | nil => rfl
  | cons range ranges ih =>
    show ((writeRanges ranges).length + 2) % 2 = 0
    rwa [Nat.add_mod_right]

/-- The number of operands that is written for an instruction is the number that is read. -/
theorem admits_operandsOf (numbers : Array (Option Nat)) (i : Instruction) :
    (opcode i).arity.admits (operandsOf numbers i).length = true := by
  cases i with
  | inside ranges | outside ranges => exact beq_iff_eq.2 (even_length_writeRanges ranges)
  | char | any | accept | jump | split | save => rfl

theorem readOperation_name (labels : List Label) (numbers : Array (Option Nat)) (i : Instruction) :
    readOperation labels (opcode i).name (operandsOf numbers i) =
      readOperands labels (opcode i) (operandsOf numbers i) := by
  rw [readOperation, Opcode.ofName?_name]
  exact if_pos (admits_operandsOf numbers i)

theorem readSlot_toString (slot : Nat) : readSlot (toString slot) =
    if slot ≤ maxSlot then .ok slot else .error (.invalidNumber (toString slot)) := by
  rw [readSlot, readNumber?_toString]
  split <;> rfl

section Instructions

variable {body : Array Instruction} {i : Instruction}

/-- An instruction that a listing can hold is read back. -/
theorem readOperation_of_slotFits (hi : i ∈ body)
    (htargets : ∀ t ∈ i.targets, t < body.size ∨ t ≤ maxWord) (hslot : i.SlotFits) :
    readOperation (labelsFrom body 0 body.size) (opcode i).name
      (operandsOf (labelNumbers body) i) = .ok i := by
  have hread : ∀ t ∈ i.targets,
      readTarget (labelsFrom body 0 body.size) (writeTarget (labelNumbers body) t) = .ok t :=
    fun t ht => readTarget_writeTarget ⟨i, hi, ht⟩ (htargets t ht)
  rw [readOperation_name]
  cases i with
  | char c =>
    rw [opcode, operandsOf, readOperands, readChar_writeChar]
    rfl
  | any | accept => rfl
  | inside ranges | outside ranges =>
    rw [opcode, operandsOf, readOperands, readRanges_writeRanges]
    rfl
  | jump target =>
    rw [opcode, operandsOf, readOperands, hread target (List.mem_singleton_self _)]
    rfl
  | split first second =>
    rw [opcode, operandsOf, readOperands, hread first List.mem_cons_self,
      hread second (List.mem_cons_of_mem _ (List.mem_singleton_self _))]
    rfl
  | save slot =>
    rw [opcode, operandsOf, readOperands, readSlot_toString, if_pos (hslot slot rfl)]
    rfl

/-- A slot that is too large for a listing is rejected. -/
theorem readOperation_of_maxSlot_lt {slot : Nat} (h : maxSlot < slot) (labels : List Label)
    (numbers : Array (Option Nat)) :
    readOperation labels (opcode (.save slot)).name (operandsOf numbers (.save slot)) =
      .error (.invalidNumber (toString slot)) := by
  rw [readOperation_name, opcode, operandsOf, readOperands, readSlot_toString,
    if_neg (Nat.not_le.2 h)]
  rfl

variable {is : List Instruction} (his : ∀ i ∈ is, i ∈ body)
  (htargets : ∀ i ∈ is, ∀ t ∈ i.targets, t < body.size ∨ t ≤ maxWord)
include his htargets

/-- Instructions are read back if a listing can hold all of them. -/
theorem mapM_read_of_slotFits (hslots : ∀ i ∈ is, i.SlotFits) (q : Nat) :
    (operationsFrom body q is).mapM (Operation.read (labelsFrom body 0 body.size)) = .ok is := by
  induction is generalizing q with
  | nil => rfl
  | cons i rest ih =>
    obtain ⟨hi, hrest⟩ := List.forall_mem_cons.1 his
    obtain ⟨htarget, htargets⟩ := List.forall_mem_cons.1 htargets
    obtain ⟨hslot, hslots⟩ := List.forall_mem_cons.1 hslots
    rw [operationsFrom, List.mapM_cons, ih hrest htargets hslots, Operation.read,
      readOperation_of_slotFits hi htarget hslot]
    rfl

/-- The first slot that is too large is reported, on the line of its instruction. -/
theorem mapM_read_of_maxSlot_lt {ix slot : Nat} (hix : is[ix]? = some (.save slot))
    (hlt : maxSlot < slot) (hbefore : ∀ i ∈ is.take ix, i.SlotFits) (q : Nat) :
    (operationsFrom body q is).mapM (Operation.read (labelsFrom body 0 body.size)) =
      .error ⟨lineOf body (q + ix), .invalidNumber (toString slot)⟩ := by
  induction is generalizing q ix with
  | nil => cases hix
  | cons i rest ih =>
    rw [operationsFrom, List.mapM_cons, Operation.read]
    cases ix with
    | zero =>
      obtain rfl := Option.some.inj hix
      rw [readOperation_of_maxSlot_lt hlt]
      rfl
    | succ ix =>
      obtain ⟨hi, hrest⟩ := List.forall_mem_cons.1 his
      obtain ⟨htarget, htargets⟩ := List.forall_mem_cons.1 htargets
      rw [List.take_succ_cons] at hbefore
      obtain ⟨hslot, hbefore⟩ := List.forall_mem_cons.1 hbefore
      rw [readOperation_of_slotFits hi htarget hslot, ih hrest htargets hix hbefore,
        Nat.add_right_comm, Nat.add_assoc]
      rfl

end Instructions

/-! ### Programs -/

/-- The labels of a program are in order, so its text form is read as its operations are. -/
theorem ofListing_listing_eq (p : Program) : Program.ofListing p.listing =
    ((operationsFrom p.body 0 p.body.toList).mapM
      (Operation.read (labelsFrom p.body 0 p.body.size))).map fun body => .ofBody body.toArray := by
  have hlength : (operationsFrom p.body 0 p.body.toList).length = p.body.size := by
    have h (q : Nat) (is : List Instruction) :
        (operationsFrom p.body q is).length = is.length := by
      induction is generalizing q with
      | nil => rfl
      | cons i rest ih => exact congrArg (· + 1) (ih (q + 1))
    rw [h, Array.length_toList]
  have hrepeated : firstRepeated? [] (labelsFrom p.body 0 p.body.size) = none :=
    firstRepeated?_eq_none (pairwise_labelsFrom p.body 0 p.body.size) fun _ _ => List.not_mem_nil
  have hdangling : (labelsFrom p.body 0 p.body.size).find? (·.position == p.body.size) = none := by
    refine List.find?_eq_none.2 fun label hlabel hposition => ?_
    obtain ⟨r, hr, _, -, rfl⟩ := mem_labelsFrom.1 hlabel
    have hsize : r = p.body.size := eq_of_beq hposition
    omega
  rw [Program.ofListing, assemble, labels_scan_listing, operations_scan_listing, hlength,
    hrepeated]
  simp only [hdangling]
  cases (operationsFrom p.body 0 p.body.toList).mapM
      (Operation.read (labelsFrom p.body 0 p.body.size)) with
  | error e => rfl
  | ok body => rfl

/-! ### Programs that are read -/

/-- Labels stand in front of operations or at the end. -/
theorem position_le_of_mem_labels {label : Label} {located : List Located} {q : Nat}
    (h : label ∈ labels q located) : label.position ≤ q + (operations located).length := by
  induction located generalizing q with
  | nil => cases h
  | cons l rest ih =>
    rcases l with ⟨line, name | ⟨word, operands⟩⟩
    · rcases List.mem_cons.1 h with rfl | h
      · exact Nat.le_add_right q _
      · exact ih h
    · have hle := ih h
      rw [operations, List.length_cons]
      omega

theorem of_readTarget_eq_ok {labels : List Label} {word : String} {t : Nat}
    (h : readTarget labels word = .ok t) : (∃ l ∈ labels, l.position = t) ∨ t ≤ maxWord := by
  unfold readTarget at h
  split at h
  case h_1 l hfind => exact Or.inl ⟨l, List.mem_of_find?_eq_some hfind, Except.ok.inj h⟩
  case h_2 => exact Or.inr (le_of_readNumber? (getD_map_ok_eq_ok_iff.1 h))

theorem le_of_readSlot_eq_ok {word : String} {slot : Nat} (h : readSlot word = .ok slot) :
    slot ≤ maxSlot :=
  le_of_readNumber? (getD_map_ok_eq_ok_iff.1 h)

/-- The instructions that are read name positions of labels or words of the machine, and slots
that a listing can name. -/
theorem of_readOperation_eq_ok {labels : List Label} {word : String} {operands : List String}
    {i : Instruction} (h : readOperation labels word operands = .ok i) :
    (∀ t ∈ i.targets, (∃ l ∈ labels, l.position = t) ∨ t ≤ maxWord) ∧ i.SlotFits := by
  unfold readOperation at h
  split at h
  case h_1 => cases h
  case h_2 op _ =>
    split at h
    case isFalse => cases h
    case isTrue =>
      unfold readOperands at h
      split at h
      case h_2 | h_5 =>
        obtain rfl := Except.ok.inj h
        exact ⟨fun _ => nofun, fun _ => nofun⟩
      case h_1 | h_3 | h_4 =>
        obtain ⟨_, -, h⟩ := bind_eq_ok_iff.1 h
        obtain rfl := Except.ok.inj h
        exact ⟨fun _ => nofun, fun _ => nofun⟩
      case h_6 =>
        obtain ⟨target, htarget, h⟩ := bind_eq_ok_iff.1 h
        obtain rfl := Except.ok.inj h
        exact ⟨List.forall_mem_singleton.2 (of_readTarget_eq_ok htarget), fun _ => nofun⟩
      case h_7 =>
        obtain ⟨first, hfirst, h⟩ := bind_eq_ok_iff.1 h
        obtain ⟨second, hsecond, h⟩ := bind_eq_ok_iff.1 h
        obtain rfl := Except.ok.inj h
        exact ⟨List.forall_mem_cons.2 ⟨of_readTarget_eq_ok hfirst,
          List.forall_mem_singleton.2 (of_readTarget_eq_ok hsecond)⟩, fun _ => nofun⟩
      case h_8 =>
        obtain ⟨slot, hslot, h⟩ := bind_eq_ok_iff.1 h
        obtain rfl := Except.ok.inj h
        refine ⟨fun _ => nofun, fun _ heq => ?_⟩
        obtain rfl := Instruction.save.inj heq
        exact le_of_readSlot_eq_ok hslot
      case h_9 => cases h

theorem of_read_eq_ok {labels : List Label} {o : Operation} {i : Instruction}
    (h : o.read labels = .ok i) :
    (∀ t ∈ i.targets, (∃ l ∈ labels, l.position = t) ∨ t ≤ maxWord) ∧ i.SlotFits := by
  rw [Operation.read] at h
  cases hread : readOperation labels o.word o.operands with
  | error fault =>
    rw [hread] at h
    cases h
  | ok j =>
    rw [hread] at h
    obtain rfl := Except.ok.inj h
    exact of_readOperation_eq_ok hread

/-- A program that is read can be written again. -/
theorem fits_of_ofListing {text : String} {p : Program} (h : Program.ofListing text = .ok p) :
    p.TargetsFit ∧ ∀ i ∈ p.body, i.SlotFits := by
  simp only [Program.ofListing, assemble] at h
  split at h
  case h_1 => cases h
  case h_2 =>
    split at h
    case h_1 => cases h
    case h_2 hdangling =>
      obtain ⟨body, hbody, h⟩ := bind_eq_ok_iff.1 h
      obtain rfl := Except.ok.inj h
      have hreads := mapM_eq_ok_iff.1 hbody
      have hread (i : Instruction) (hi : i ∈ body.toArray) :
          (∀ t ∈ i.targets, (∃ l ∈ labels 0 (scan text), l.position = t) ∨ t ≤ maxWord) ∧
            i.SlotFits := by
        obtain ⟨k, hk, rfl⟩ := List.getElem_of_mem (List.mem_toArray.1 hi)
        exact of_read_eq_ok (hreads.get (hreads.length_eq ▸ hk) hk)
      refine ⟨fun i hi t ht => ((hread i hi).1 t ht).imp_left ?_, fun i hi => (hread i hi).2⟩
      rintro ⟨l, hl, rfl⟩
      -- a label that stands at the end is reported as dangling
      have hne : l.position ≠ (operations (scan text)).length := fun heq =>
        List.find?_eq_none.1 hdangling l hl (beq_iff_eq.2 heq)
      have hle := position_le_of_mem_labels hl
      show l.position < body.toArray.size
      rw [List.size_toArray, ← hreads.length_eq]
      omega

end Listing

namespace Program

open Listing

/-- If not all slots of a program fit in a listing, there is a first one that does not. -/
theorem exists_first_slot {p : Program} (h : ¬ ∀ i ∈ p.body, i.SlotFits) :
    ∃ (ix slot : Nat), p.body[ix]? = some (.save slot) ∧ maxSlot < slot ∧
      ∀ i ∈ p.body.toList.take ix, i.SlotFits := by
  have hex : ∃ (ix : Nat) (i : Instruction), p.body[ix]? = some i ∧ ¬ i.SlotFits := by
    push Not at h
    obtain ⟨i, hi, hnot⟩ := h
    obtain ⟨ix, hix⟩ := Array.getElem?_of_mem hi
    exact ⟨ix, i, hix, hnot⟩
  classical
  obtain ⟨i, hi, hnot⟩ := Nat.find_spec hex
  unfold Instruction.SlotFits at hnot
  push Not at hnot
  obtain ⟨slot, rfl, hlt⟩ := hnot
  refine ⟨Nat.find hex, slot, hi, hlt, fun j hj => ?_⟩
  obtain ⟨jx, hjx, hj⟩ := List.mem_take_iff_getElem.1 hj
  by_contra hfits
  have hlt : jx < Nat.find hex := by omega
  refine Nat.find_min hex hlt ⟨j, ?_, hfits⟩
  rw [← Array.getElem?_toList, List.getElem?_eq_some_iff]
  exact ⟨_, hj⟩

/-- A program whose slots fit is read back from its text form. -/
theorem ofListing_listing_of_slotFits {p : Program} (h : p.TargetsFit)
    (hslots : ∀ i ∈ p.body, i.SlotFits) : ofListing p.listing = .ok p := by
  rw [ofListing_listing_eq, mapM_read_of_slotFits (fun i hi => Array.mem_toList_iff.1 hi)
    (fun i hi => h i (Array.mem_toList_iff.1 hi)) fun i hi => hslots i (Array.mem_toList_iff.1 hi)]
  exact congrArg Except.ok (Program.ext Array.toArray_toList)

/-- **Round trip.** The text form of a program is read as this program, or, if a slot is too large
for a listing, as the error for the first such slot, on the line that holds it. What is read from
any text is therefore read again from its text form. -/
theorem ofListing_listing :
    (∀ p : Program, p.TargetsFit →
      ((∀ i ∈ p.body, i.SlotFits) → ofListing p.listing = .ok p) ∧
      ((¬ ∀ i ∈ p.body, i.SlotFits) → ∃ (ix slot : Nat), p.body[ix]? = some (.save slot) ∧
        maxSlot < slot ∧ (∀ i ∈ p.body.toList.take ix, i.SlotFits) ∧
        ofListing p.listing = .error ⟨lineOf p.body ix, .invalidNumber (toString slot)⟩ ∧
        (p.listing.toList.splitOn '\n')[lineOf p.body ix - 1]? =
          some ("    save " ++ toString slot).toList)) ∧
    ∀ text p, ofListing text = .ok p → ofListing p.listing = .ok p := by
  refine ⟨fun p h => ⟨ofListing_listing_of_slotFits h, fun hslots => ?_⟩, fun text p h => ?_⟩
  · obtain ⟨ix, slot, hix, hlt, hbefore⟩ := exists_first_slot hslots
    refine ⟨ix, slot, hix, hlt, hbefore, ?_, ?_⟩
    · rw [ofListing_listing_eq, mapM_read_of_maxSlot_lt (fun i hi => Array.mem_toList_iff.1 hi)
        (fun i hi => h i (Array.mem_toList_iff.1 hi)) (by rwa [Array.getElem?_toList]) hlt hbefore,
        Nat.zero_add]
      rfl
    · rw [line_lineOf hix]
      simp [operation, Statement.line, Statement.indent, Statement.words, Opcode.name,
        List.replicate]
  · obtain ⟨htargets, hslots⟩ := fits_of_ofListing h
    exact ofListing_listing_of_slotFits htargets hslots

/-- Escaped and reversed operands, a target outside the program, and a slot that is too large. -/
theorem ofListing_listing_escapes :
    ofListing (ofBody #[.split 2 9, .outside [⟨';', '\\'⟩, ⟨'z', ' '⟩], .save 4294967295,
        .jump 0]).listing =
      .ok (ofBody #[.split 2 9, .outside [⟨';', '\\'⟩, ⟨'z', ' '⟩], .save 4294967295, .jump 0]) ∧
    ofListing (ofBody #[.save 0, .jump 1, .save 4294967296, .save 4294967297]).listing =
      .error ⟨4, .invalidNumber "4294967296"⟩ := by
  constructor
  · refine (ofListing_listing.1 _ ?_).1 ?_
    · simp [TargetsFit, Instruction.targets, size, maxWord, UInt64.size]
    · simp [Instruction.SlotFits, maxSlot, UInt32.size]
  · obtain ⟨ix, slot, hix, hlt, hbefore, herror, -⟩ := (ofListing_listing.1
      (ofBody #[.save 0, .jump 1, .save 4294967296, .save 4294967297])
      (by simp [TargetsFit, Instruction.targets, size, maxWord, UInt64.size])).2
      (by simp [Instruction.SlotFits, maxSlot, UInt32.size])
    have hslot : ix = 2 ∧ slot = 4294967296 := by
      match ix with
      | 0 =>
        obtain rfl : 0 = slot := by simpa using hix
        cases hlt
      | 1 => cases hix
      | 2 => exact ⟨rfl, by simpa using hix.symm⟩
      | ix + 3 =>
        have hfits := hbefore (.save 4294967296) (by simp)
        cases Nat.not_le.2 (by decide) (hfits _ rfl)
    rw [herror, hslot.1, hslot.2]
    rfl

end Program

end Lockstep
