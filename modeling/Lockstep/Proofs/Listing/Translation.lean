import Lockstep.Listing.Assembly
import Lockstep.Proofs.Listing.RoundTrip

/-!
# Operations and their instructions

An operation is read as the instruction that it makes, or refused for what is wrong with it. Its
targets are looked up among the labels of the whole listing, so that it makes no difference whether
a label stands before or behind the operation.

* `Listing.exists_of_labels_eq_append`: a label among the labels of some events.
* `Listing.OperandKind.admits_iff`: the words that are operands of a kind.
* `Listing.readTarget_eq_ok_iff`: the position that a target names.
* `Listing.readRanges_eq_ok_iff`, `Listing.readRanges_eq_error_iff`: the characters of a class.
* `Listing.readOperation_eq_ok_iff`, `Listing.readOperation_eq_error_iff`: operations.
-/

namespace Lockstep.Listing

/-! ### Labels -/

theorem operations_append (xs ys : List Located) :
    operations (xs ++ ys) = operations xs ++ operations ys := by
  induction xs with
  | nil => rfl
  | cons event rest ih =>
    obtain ⟨line, name | ⟨word, operands⟩⟩ := event
    · exact ih
    · exact congrArg (_ :: ·) ih

theorem labels_append (position : Nat) (xs ys : List Located) :
    labels position (xs ++ ys) =
      labels position xs ++ labels (position + (operations xs).length) ys := by
  induction xs generalizing position with
  | nil => rfl
  | cons event rest ih =>
    obtain ⟨line, name | ⟨word, operands⟩⟩ := event
    · exact congrArg (_ :: ·) (ih position)
    · show labels (position + 1) (rest ++ ys) = _
      rw [ih, Nat.add_right_comm]
      rfl

theorem map_name_labels (position : Nat) (events : List Located) :
    (labels position events).map Label.name = labelNames events := by
  induction events generalizing position with
  | nil => rfl
  | cons event rest ih =>
    obtain ⟨line, name | ⟨word, operands⟩⟩ := event
    · exact congrArg (_ :: ·) (ih position)
    · exact ih (position + 1)

/-- A label among the labels of some events is one of the events, and its position is the number of
operations before it. -/
theorem exists_of_labels_eq_append {position : Nat} {events : List Located}
    {before after : List Label} {label : Label}
    (h : labels position events = before ++ label :: after) :
    ∃ xs ys, events = xs ++ ⟨label.line, .label label.name⟩ :: ys ∧ labels position xs = before ∧
      label.position = position + (operations xs).length := by
  induction events generalizing position before with
  | nil => cases before <;> cases h
  | cons event rest ih =>
    obtain ⟨line, name | ⟨word, operands⟩⟩ := event
    · cases before with
      | nil =>
        obtain ⟨rfl, -⟩ := List.cons.inj h
        exact ⟨[], rest, rfl, rfl, rfl⟩
      | cons first before =>
        obtain ⟨rfl, hrest⟩ := List.cons.inj h
        obtain ⟨xs, ys, rfl, rfl, hposition⟩ := ih hrest
        exact ⟨_ :: xs, ys, rfl, rfl, hposition⟩
    · obtain ⟨xs, ys, rfl, rfl, hposition⟩ := ih h
      refine ⟨_ :: xs, ys, rfl, rfl, ?_⟩
      rw [hposition, Nat.add_assoc, Nat.add_comm 1]
      rfl

variable {events : List Located}

/-- The labels of some events name positions in them. -/
theorem mem_labels_iff {label : Label} : label ∈ labels 0 events ↔
    ∃ xs ys, events = xs ++ ⟨label.line, .label label.name⟩ :: ys ∧
      label.position = (operations xs).length := by
  constructor
  · intro h
    obtain ⟨before, after, h⟩ := List.append_of_mem h
    obtain ⟨xs, ys, hevents, -, hposition⟩ := exists_of_labels_eq_append h
    rw [Nat.zero_add] at hposition
    exact ⟨xs, ys, hevents, hposition⟩
  · rintro ⟨xs, ys, rfl, hposition⟩
    rw [labels_append, labels, Nat.zero_add, ← hposition]
    exact List.mem_append_right _ List.mem_cons_self

/-! ### Operands -/

theorem names_iff_of_not_mem {word : String} (h : word ∉ labelNames events) {n : Nat} :
    Names events word n ↔ readNumber? maxWord word = some n := by
  constructor
  · rintro (hevents | ⟨-, hnumber⟩)
    · refine absurd ?_ h
      rw [hevents, labelNames, List.filterMap_append]
      exact List.mem_append_right _ List.mem_cons_self
    · exact hnumber
  · exact .number h

/-- The operands of a kind, by what they write. A word that is a label is a target whatever else it
writes. -/
theorem OperandKind.admits_iff {kind : OperandKind} {word : String} : kind.Admits events word ↔
    match kind with
    | .char => ∃ c, WritesChar word.toList c
    | .target => word ∈ labelNames events ∨ ∃ n, WritesNumber word.toList n ∧ n ≤ maxWord
    | .slot => ∃ n, WritesNumber word.toList n ∧ n ≤ maxSlot := by
  cases kind with
  | char => exact exists_congr fun c => readChar?_eq_some_iff
  | slot => exact exists_congr fun n => readNumber?_eq_some_iff
  | target =>
    by_cases hword : word ∈ labelNames events
    · refine iff_of_true ?_ (Or.inl hword)
      rw [← map_name_labels 0, List.mem_map] at hword
      obtain ⟨label, hlabel, rfl⟩ := hword
      obtain ⟨before, after, hevents, -⟩ := mem_labels_iff.1 hlabel
      exact ⟨_, .label hevents⟩
    · refine Iff.trans (exists_congr fun n => ?_) (or_iff_right hword).symm
      rw [names_iff_of_not_mem hword, readNumber?_eq_some_iff]

/-- No two labels share a name, so that a name tells the position. -/
theorem names_iff_of_mem (hnodup : (labelNames events).Nodup) {label : Label}
    (h : label ∈ labels 0 events) {n : Nat} :
    Names events label.name n ↔ label.position = n := by
  have hname : label.name ∈ labelNames events := by
    rw [← map_name_labels 0]
    exact List.mem_map_of_mem h
  rw [← map_name_labels 0] at hnodup
  constructor
  · generalize hword : label.name = word
    intro hnames
    cases hnames with
    | @label xs line _ ys hevents =>
      have hmem : ⟨word, line, (operations xs).length⟩ ∈ labels 0 events :=
        mem_labels_iff.2 ⟨xs, ys, hevents, rfl⟩
      exact congrArg Label.position (List.inj_on_of_nodup_map hnodup h hmem hword)
    | number hnot => exact absurd (hword ▸ hname) hnot
  · rintro rfl
    obtain ⟨xs, ys, hevents, hposition⟩ := mem_labels_iff.1 h
    rw [hposition]
    exact .label hevents

/-- A target is read as the position that it names. -/
theorem readTarget_eq_ok_iff (hnodup : (labelNames events).Nodup) {word : String} {n : Nat} :
    readTarget (labels 0 events) word = .ok n ↔ Names events word n := by
  rw [readTarget]
  cases hfind : (labels 0 events).find? (·.name == word) with
  | none =>
    have hword : word ∉ labelNames events := by
      rw [← map_name_labels 0, List.mem_map]
      rintro ⟨label, hlabel, rfl⟩
      exact List.find?_eq_none.1 hfind label hlabel (beq_self_eq_true _)
    rw [names_iff_of_not_mem hword]
    exact getD_map_ok_eq_ok_iff
  | some label =>
    have hname := List.find?_some hfind
    obtain rfl := eq_of_beq hname
    rw [names_iff_of_mem hnodup (List.mem_of_find?_eq_some hfind), Except.ok.injEq]

theorem readTarget_eq_error_iff (hnodup : (labelNames events).Nodup) {word : String}
    {fault : Fault} : readTarget (labels 0 events) word = .error fault ↔
      ¬ OperandKind.target.Admits events word ∧ .unknownLabel word = fault := by
  have hok : OperandKind.target.Admits events word ↔
      ∃ n, readTarget (labels 0 events) word = .ok n :=
    exists_congr fun n => (readTarget_eq_ok_iff hnodup).symm
  rw [hok, readTarget]
  cases (labels 0 events).find? (·.name == word) with
  | none =>
    rw [getD_map_ok_eq_error_iff]
    simp only [getD_map_ok_eq_ok_iff]
  | some label => simp

theorem readChar_eq_ok_iff {word : String} {c : Char} :
    readChar word = .ok c ↔ readChar? word = some c := getD_map_ok_eq_ok_iff

theorem readChar_eq_error_iff {word : String} {fault : Fault} : readChar word = .error fault ↔
    ¬ OperandKind.char.Admits events word ∧ .invalidChar word = fault := getD_map_ok_eq_error_iff

theorem readSlot_eq_ok_iff {word : String} {slot : Nat} :
    readSlot word = .ok slot ↔ readNumber? maxSlot word = some slot := getD_map_ok_eq_ok_iff

theorem readSlot_eq_error_iff {word : String} {fault : Fault} : readSlot word = .error fault ↔
    ¬ OperandKind.slot.Admits events word ∧ .invalidNumber word = fault := getD_map_ok_eq_error_iff

namespace OperandKind

variable {kind : OperandKind} {word : String} {rest : List String} {f : Fault}

theorem not_rejects_nil : ¬ kind.Rejects events [] f := nofun

theorem rejects_cons_iff : kind.Rejects events (word :: rest) f ↔
    ¬ kind.Admits events word ∧ kind.fault word = f ∨
      kind.Admits events word ∧ kind.Rejects events rest f := by
  constructor
  · rintro (hword | ⟨hword, hrest⟩)
    · exact Or.inl ⟨hword, rfl⟩
    · exact Or.inr ⟨hword, hrest⟩
  · rintro (⟨hword, rfl⟩ | ⟨hword, hrest⟩)
    · exact .here hword
    · exact .there hword hrest

theorem rejects_singleton_iff : kind.Rejects events [word] f ↔
    ¬ kind.Admits events word ∧ kind.fault word = f := by
  rw [rejects_cons_iff]
  exact or_iff_left fun h => not_rejects_nil h.2

end OperandKind

/-! ### Characters of a class -/

theorem eq_nil_of_even {α : Type} {xs : List α} (hshort : ∀ x y rest, xs ≠ x :: y :: rest)
    (heven : xs.length % 2 = 0) : xs = [] := by
  match xs with
  | [] => rfl
  | [_] => cases heven
  | x :: y :: rest => exact absurd rfl (hshort x y rest)

theorem readRanges_eq_ok_iff {operands : List String} (heven : operands.length % 2 = 0)
    {ranges : List CharRange} : readRanges operands = .ok ranges ↔
      operands.map readChar? = charsOf ranges := by
  induction operands using readRanges.induct generalizing ranges with
  | case1 lo hi rest ih =>
    have hrest : rest.length % 2 = 0 := by
      rw [List.length_cons, List.length_cons] at heven
      omega
    simp only [readRanges, bind_eq_ok_iff, readChar_eq_ok_iff, ih hrest]
    constructor
    · rintro ⟨a, ha, b, hb, rest', hrest', ⟨⟩⟩
      rw [List.map_cons, List.map_cons, ha, hb, hrest']
      rfl
    · intro h
      cases ranges with
      | nil => cases h
      | cons range ranges =>
        obtain ⟨hlo, h⟩ := List.cons.inj h
        obtain ⟨hhi, h⟩ := List.cons.inj h
        exact ⟨range.lo, hlo, range.hi, hhi, ranges, h, rfl⟩
  | case2 operands hshort =>
    obtain rfl := eq_nil_of_even hshort heven
    cases ranges with
    | nil => exact iff_of_true rfl rfl
    | cons range ranges => simp [readRanges, charsOf, pure, Except.pure]

/-- The characters of a class are read from left to right. -/
theorem readRanges_eq_error_iff {operands : List String} (heven : operands.length % 2 = 0)
    {f : Fault} : readRanges operands = .error f ↔
      OperandKind.char.Rejects events operands f := by
  induction operands using readRanges.induct with
  | case1 lo hi rest ih =>
    have hrest : rest.length % 2 = 0 := by
      rw [List.length_cons, List.length_cons] at heven
      omega
    simp only [readRanges, bind_eq_error_iff, @readChar_eq_error_iff events, readChar_eq_ok_iff,
      ih hrest, OperandKind.rejects_cons_iff]
    constructor
    · rintro (h | ⟨a, ha, h | ⟨b, hb, h | ⟨_, -, ⟨⟩⟩⟩⟩)
      · exact Or.inl h
      · exact Or.inr ⟨⟨a, ha⟩, Or.inl h⟩
      · exact Or.inr ⟨⟨a, ha⟩, Or.inr ⟨⟨b, hb⟩, h⟩⟩
    · rintro (h | ⟨⟨a, ha⟩, h | ⟨⟨b, hb⟩, h⟩⟩)
      · exact Or.inl h
      · exact Or.inr ⟨a, ha, Or.inl h⟩
      · exact Or.inr ⟨a, ha, Or.inr ⟨b, hb, Or.inl h⟩⟩
  | case2 operands hshort =>
    obtain rfl := eq_nil_of_even hshort heven
    refine iff_of_false (fun h => ?_) OperandKind.not_rejects_nil
    cases h

/-! ### Operations -/

theorem opcode_ofName?_eq_some_iff {word : String} {op : Opcode} :
    Opcode.ofName? word = some op ↔ op.name = word := by
  constructor
  · intro h
    have hname := List.find?_some h
    exact eq_of_beq hname
  · rintro rfl
    exact Opcode.ofName?_name op

theorem even_length_charsOf (ranges : List CharRange) : (charsOf ranges).length % 2 = 0 := by
  induction ranges with
  | nil => rfl
  | cons range ranges ih =>
    show ((charsOf ranges).length + 2) % 2 = 0
    rwa [Nat.add_mod_right]

/-- An instruction is written with as many operands as its operation takes. -/
theorem Translates.admits {op : Opcode} {operands : List String} {i : Instruction}
    (h : Translates events op operands i) : op.arity.admits operands.length = true := by
  cases h with
  | @range words ranges h | @nrange words ranges h =>
    have heven := even_length_charsOf ranges
    rw [← h, List.length_map] at heven
    exact beq_iff_eq.2 heven
  | _ => rfl

section Operations

variable (hnodup : (labelNames events).Nodup)
include hnodup

theorem readOperands_eq_ok_iff {op : Opcode} {operands : List String} {i : Instruction}
    (h : op.arity.admits operands.length = true) :
    readOperands (labels 0 events) op operands = .ok i ↔ Translates events op operands i := by
  constructor
  · intro hread
    cases op with
    | char =>
      obtain ⟨w, rfl⟩ := List.length_eq_one_iff.1 (eq_of_beq h)
      obtain ⟨c, hc, ⟨⟩⟩ := bind_eq_ok_iff.1 hread
      exact .char (readChar_eq_ok_iff.1 hc)
    | any =>
      obtain rfl := List.length_eq_zero_iff.1 (eq_of_beq h)
      cases hread
      exact .any
    | range =>
      obtain ⟨ranges, hranges, ⟨⟩⟩ := bind_eq_ok_iff.1 hread
      exact .range ((readRanges_eq_ok_iff (eq_of_beq h)).1 hranges)
    | nrange =>
      obtain ⟨ranges, hranges, ⟨⟩⟩ := bind_eq_ok_iff.1 hread
      exact .nrange ((readRanges_eq_ok_iff (eq_of_beq h)).1 hranges)
    | accept =>
      obtain rfl := List.length_eq_zero_iff.1 (eq_of_beq h)
      cases hread
      exact .accept
    | jump =>
      obtain ⟨w, rfl⟩ := List.length_eq_one_iff.1 (eq_of_beq h)
      obtain ⟨target, htarget, ⟨⟩⟩ := bind_eq_ok_iff.1 hread
      exact .jump ((readTarget_eq_ok_iff hnodup).1 htarget)
    | split =>
      obtain ⟨w, w', rfl⟩ := List.length_eq_two.1 (eq_of_beq h)
      obtain ⟨first, hfirst, hread⟩ := bind_eq_ok_iff.1 hread
      obtain ⟨second, hsecond, ⟨⟩⟩ := bind_eq_ok_iff.1 hread
      exact .split ((readTarget_eq_ok_iff hnodup).1 hfirst)
        ((readTarget_eq_ok_iff hnodup).1 hsecond)
    | save =>
      obtain ⟨w, rfl⟩ := List.length_eq_one_iff.1 (eq_of_beq h)
      obtain ⟨slot, hslot, ⟨⟩⟩ := bind_eq_ok_iff.1 hread
      exact .save (readSlot_eq_ok_iff.1 hslot)
  · intro htranslates
    cases htranslates with
    | char hc => rw [readOperands, readChar_eq_ok_iff.2 hc]; rfl
    | any | accept => rfl
    | range hranges | nrange hranges =>
      rw [readOperands, (readRanges_eq_ok_iff (eq_of_beq h)).2 hranges]; rfl
    | jump htarget => rw [readOperands, (readTarget_eq_ok_iff hnodup).2 htarget]; rfl
    | split hfirst hsecond =>
      rw [readOperands, (readTarget_eq_ok_iff hnodup).2 hfirst,
        (readTarget_eq_ok_iff hnodup).2 hsecond]
      rfl
    | save hslot => rw [readOperands, readSlot_eq_ok_iff.2 hslot]; rfl

theorem readOperands_eq_error_iff {op : Opcode} {operands : List String} {f : Fault}
    (h : op.arity.admits operands.length = true) :
    readOperands (labels 0 events) op operands = .error f ↔
      ∃ kind, op.operandKind? = some kind ∧ kind.Rejects events operands f := by
  have hkind {kind : OperandKind} : (∃ kind', some kind = some kind' ∧
      kind'.Rejects events operands f) ↔ kind.Rejects events operands f := by simp
  cases op with
  | char =>
    obtain ⟨w, rfl⟩ := List.length_eq_one_iff.1 (eq_of_beq h)
    rw [Opcode.operandKind?, hkind, OperandKind.rejects_singleton_iff]
    exact bind_pure_eq_error_iff.trans readChar_eq_error_iff
  | any | accept =>
    obtain rfl := List.length_eq_zero_iff.1 (eq_of_beq h)
    exact iff_of_false nofun nofun
  | range | nrange =>
    rw [Opcode.operandKind?, hkind]
    exact bind_pure_eq_error_iff.trans (readRanges_eq_error_iff (eq_of_beq h))
  | jump =>
    obtain ⟨w, rfl⟩ := List.length_eq_one_iff.1 (eq_of_beq h)
    rw [Opcode.operandKind?, hkind, OperandKind.rejects_singleton_iff]
    exact bind_pure_eq_error_iff.trans (readTarget_eq_error_iff hnodup)
  | split =>
    obtain ⟨w, w', rfl⟩ := List.length_eq_two.1 (eq_of_beq h)
    rw [Opcode.operandKind?, hkind, OperandKind.rejects_cons_iff,
      OperandKind.rejects_singleton_iff]
    refine bind_eq_error_iff.trans (or_congr (readTarget_eq_error_iff hnodup) ?_)
    constructor
    · rintro ⟨first, hfirst, h⟩
      exact ⟨⟨first, (readTarget_eq_ok_iff hnodup).1 hfirst⟩,
        (readTarget_eq_error_iff hnodup).1 (bind_pure_eq_error_iff.1 h)⟩
    · rintro ⟨⟨first, hfirst⟩, h⟩
      exact ⟨first, (readTarget_eq_ok_iff hnodup).2 hfirst,
        bind_pure_eq_error_iff.2 ((readTarget_eq_error_iff hnodup).2 h)⟩
  | save =>
    obtain ⟨w, rfl⟩ := List.length_eq_one_iff.1 (eq_of_beq h)
    rw [Opcode.operandKind?, hkind, OperandKind.rejects_singleton_iff]
    exact bind_pure_eq_error_iff.trans readSlot_eq_error_iff

/-- An operation is read as the instruction that it makes. -/
theorem readOperation_eq_ok_iff {o : Operation} {i : Instruction} :
    readOperation (labels 0 events) o.word o.operands = .ok i ↔ o.Makes events i := by
  rw [readOperation]
  constructor
  · intro h
    split at h
    · cases h
    · next op hop =>
      split at h
      · next hadmits =>
        exact ⟨op, opcode_ofName?_eq_some_iff.1 hop, (readOperands_eq_ok_iff hnodup hadmits).1 h⟩
      · cases h
  · rintro ⟨op, hop, htranslates⟩
    rw [opcode_ofName?_eq_some_iff.2 hop]
    have hadmits := htranslates.admits
    exact (if_pos hadmits).trans ((readOperands_eq_ok_iff hnodup hadmits).2 htranslates)

/-- An operation is refused for what is wrong with it. -/
theorem readOperation_eq_error_iff {o : Operation} {f : Fault} :
    readOperation (labels 0 events) o.word o.operands = .error f ↔ o.Fails events f := by
  rw [readOperation]
  constructor
  · intro h
    split at h
    · next hop =>
      cases h
      refine .opcode fun op hname => ?_
      rw [opcode_ofName?_eq_some_iff.2 hname] at hop
      cases hop
    · next op hop =>
      rw [opcode_ofName?_eq_some_iff] at hop
      split at h
      · next hadmits =>
        obtain ⟨kind, hkind, hrejects⟩ := (readOperands_eq_error_iff hnodup hadmits).1 h
        exact .operand hop hadmits hkind hrejects
      · next hadmits =>
        cases h
        exact .count hop (Bool.eq_false_of_not_eq_true hadmits)
  · rintro (hword | ⟨hop, hcount⟩ | ⟨hop, hadmits, hkind, hrejects⟩)
    · have hnone : Opcode.ofName? o.word = none :=
        Option.eq_none_iff_forall_ne_some.2 fun op hop =>
          hword op (opcode_ofName?_eq_some_iff.1 hop)
      rw [hnone]
    · rw [opcode_ofName?_eq_some_iff.2 hop]
      exact if_neg (Bool.eq_false_iff.1 hcount)
    · rw [opcode_ofName?_eq_some_iff.2 hop]
      exact (if_pos hadmits).trans
        ((readOperands_eq_error_iff hnodup hadmits).2 ⟨_, hkind, hrejects⟩)

end Operations

end Lockstep.Listing
