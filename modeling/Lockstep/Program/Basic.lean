import Lockstep.CharRange

/-!
# Programs

A program is a sequence of instructions for a machine that runs many threads at once. Each thread
has a position in the program and a row of slots, in which it saves offsets of the text.

* `Instruction`; `Instruction.accepts` says which characters an instruction consumes, and
  `Instruction.targets` lists the positions that it names.
* `Program`: a body together with the number of slots that its threads carry.
* `countSlots`: that number, which is even, since slots come in pairs, one pair for a group.

Positions and slots may be any numbers: a thread that leaves the body dies, and saving to a slot
that the thread does not have does nothing.
-/

namespace Lockstep

/-- An instruction of the machine. -/
inductive Instruction where
  /-- Consumes the given character. -/
  | char (c : Char)
  /-- Consumes any character. -/
  | any
  /-- Consumes a character that lies in one of the ranges. -/
  | inside (ranges : List CharRange)
  /-- Consumes a character that lies in none of the ranges. -/
  | outside (ranges : List CharRange)
  /-- Ends the thread with success. -/
  | accept
  /-- Goes on at another position. -/
  | jump (target : Nat)
  /-- Goes on at two positions, of which the first has priority. -/
  | split (first second : Nat)
  /-- Saves the current offset in a slot. -/
  | save (slot : Nat)
  deriving DecidableEq, Repr

/-- The greatest number that fits in a machine word of 64 bits. -/
def maxWord : Nat := UInt64.size - 1

theorem maxWord_eq : maxWord = 18446744073709551615 := rfl

namespace Instruction

/-- Whether an instruction consumes a character. -/
def accepts (c : Char) : Instruction → Bool
  | char d => c == d
  | any => true
  | inside ranges => CharRange.anyContains ranges c
  | outside ranges => !CharRange.anyContains ranges c
  | _ => false

/-- The positions that an instruction names, in order. -/
def targets : Instruction → List Nat
  | jump target => [target]
  | split first second => [first, second]
  | _ => []

/-- An instruction with every named position replaced. -/
def mapTargets (f : Nat → Nat) : Instruction → Instruction
  | jump target => jump (f target)
  | split first second => split (f first) (f second)
  | i => i

/-- The slots that a thread needs for an instruction: whole pairs, up to and including the slot
that it saves to, and no more than fit in a word. -/
def slotsNeeded : Instruction → Nat
  | save slot => min (slot + 2) maxWord / 2 * 2
  | _ => 0

end Instruction

/-- The number of slots that the threads of a program carry. -/
def countSlots (body : Array Instruction) : Nat :=
  body.foldl (fun slots i => max slots i.slotsNeeded) 0

/-- The number of slots is the least bound on what the instructions need. -/
theorem countSlots_le_iff {body : Array Instruction} {bound : Nat} :
    countSlots body ≤ bound ↔ ∀ i ∈ body, i.slotsNeeded ≤ bound := by
  have hfold (is : List Instruction) (slots : Nat) :
      is.foldl (fun slots i => max slots i.slotsNeeded) slots ≤ bound ↔
        slots ≤ bound ∧ ∀ i ∈ is, i.slotsNeeded ≤ bound := by
    induction is generalizing slots with
    | nil => simp
    | cons i is ih => rw [List.foldl_cons, ih, Nat.max_le, List.forall_mem_cons, and_assoc]
  simp [countSlots, ← Array.foldl_toList, hfold]

/-- A sequence of instructions, with the number of slots that its threads carry. -/
structure Program where
  body : Array Instruction
  slotCount : Nat
  slotCount_eq : slotCount = countSlots body
  deriving DecidableEq

namespace Program

/-- The program of a sequence of instructions. -/
def ofBody (body : Array Instruction) : Program := ⟨body, countSlots body, rfl⟩

@[simp] theorem body_ofBody (body : Array Instruction) : (ofBody body).body = body := rfl

@[simp] theorem slotCount_ofBody (body : Array Instruction) :
    (ofBody body).slotCount = countSlots body := rfl

/-- A program is determined by its instructions. -/
@[ext] theorem ext {p q : Program} (h : p.body = q.body) : p = q := by
  obtain ⟨body, _, rfl⟩ := p
  obtain ⟨_, _, rfl⟩ := q
  cases h
  rfl

theorem slotCount_le_iff {p : Program} {bound : Nat} :
    p.slotCount ≤ bound ↔ ∀ i ∈ p.body, i.slotsNeeded ≤ bound :=
  p.slotCount_eq ▸ countSlots_le_iff

/-- The number of instructions. -/
def size (p : Program) : Nat := p.body.size

/-- Whether a program has no instructions. -/
def isEmpty (p : Program) : Bool := p.body.isEmpty

/-- The groups that a run of the program reports, with the whole match as one of them. -/
def groupCount (p : Program) : Nat := p.slotCount / 2 + 1

end Program

end Lockstep
