import Lockstep.Pattern.Basic
import Lockstep.Program.Chain
import Lockstep.Program.SizeError

/-!
# The program of a pattern

A pattern is turned into a chain from its leaves up. An atom is one instruction; a group saves an
offset in front of its body and another behind it; parts of a concatenation are joined. A choice
is a `split`, and so is the decision to repeat a body once more or to go on: which branch has
priority is the order of the two targets, so a lazy repetition swaps them.

* `Atom.instruction`: the instruction of an atom.
* `Emitter`: the labels and slots handed out so far.
* `Pattern.emit`: the chain of a pattern.
* `Program.ofPattern`: the linked program, unless it exceeds a limit.
-/

namespace Lockstep

/-- The instruction that consumes the characters of an atom. -/
def Atom.instruction : Atom → Instruction
  | literal c => .char c
  | any => .any
  | shorthand s false => .inside s.ranges
  | shorthand s true => .outside s.ranges
  | bracket false items => .inside (items.flatMap ClassItem.ranges)
  | bracket true items => .outside (items.flatMap ClassItem.ranges)

/-- The instruction of an atom consumes the characters that the atom accepts. -/
theorem Atom.accepts_instruction (a : Atom) (c : Char) : a.instruction.accepts c = a.accepts c := by
  have h (items : List ClassItem) : CharRange.anyContains (items.flatMap ClassItem.ranges) c =
      items.any (CharRange.anyContains ·.ranges c) := by
    induction items with
    | nil => rfl
    | cons item items ih => simp [ih]
  cases a with
  | literal d => rfl
  | any => rfl
  | shorthand s negated =>
    cases negated with
    | false => exact (Bool.bne_false _).symm
    | true => exact (Bool.bne_true _).symm
  | bracket negated items =>
    rw [accepts, ← h]
    cases negated with
    | false => exact (Bool.bne_false _).symm
    | true => exact (Bool.bne_true _).symm

/-- The labels and slots handed out so far. -/
structure Emitter where
  labels : Labels
  nextSlot : Nat

/-- Building code, while handing out labels and slots. -/
abbrev Emission := StateM Emitter

namespace Emission

/-- A new label. -/
def newLabel : Emission Nat :=
  modifyGet fun s => (s.labels.next, { s with labels := s.labels.add })

/-- The first of a new pair of slots. -/
def newSlots : Emission Nat :=
  modifyGet fun s => (s.nextSlot, { s with nextSlot := s.nextSlot + 2 })

/-- The chain of one instruction. -/
def single (i : Instruction) : Emission Chain := do
  let label ← newLabel
  let exit ← newLabel
  return ⟨⟨label, i⟩, [], exit⟩

/-- Makes the label `source` stand for the label `target`. -/
def forward (source target : Nat) : Emission Unit :=
  modify fun s => { s with labels := s.labels.forward source target }

/-- One chain after the other: the exit of the first stands for the entry of the second. -/
def join (first second : Chain) : Emission Chain := do
  forward first.exit second.entry
  return ⟨first.head, first.tail ++ second.code, second.exit⟩

end Emission

/-- The decision between a further occurrence of a body and what comes after it. -/
def Instruction.decide (greedy : Bool) (again onwards : Nat) : Instruction :=
  if greedy then split again onwards else split onwards again

namespace Pattern

open Emission

/-- The chain of a pattern. -/
def emit : Pattern → Emission Chain
  | atom a => single a.instruction
  | group body => do
    let slot ← newSlots
    let opening ← single (.save slot)
    let body ← body.emit
    let opened ← join opening body
    let closing ← single (.save (slot + 1))
    join opened closing
  | concat first second => do
    let first ← first.emit
    let second ← second.emit
    join first second
  | alternate first second => do
    let exit ← newLabel
    let first ← first.emit
    -- The second branch has no entry yet; `rest` will stand for it.
    let rest ← newLabel
    let label ← newLabel
    let second ← second.emit
    forward rest second.entry
    forward second.exit exit
    return ⟨⟨label, .split first.entry rest⟩,
      first.code ++ ⟨first.exit, .jump exit⟩ :: second.code, exit⟩
  | repeated body .star greedy => do
    let body ← body.emit
    let exit ← newLabel
    let label ← newLabel
    let back ← newLabel
    forward body.exit back
    return ⟨⟨label, .decide greedy body.entry exit⟩, body.code ++ [⟨back, .jump label⟩], exit⟩
  | repeated body .plus greedy => do
    let body ← body.emit
    let exit ← newLabel
    let label ← newLabel
    forward body.exit label
    return ⟨body.head, body.tail ++ [⟨label, .decide greedy body.entry exit⟩], exit⟩
  | repeated body .optional greedy => do
    let body ← body.emit
    let exit ← newLabel
    let label ← newLabel
    forward body.exit exit
    return ⟨⟨label, .decide greedy body.entry exit⟩, body.code, exit⟩

end Pattern

/-- The program of a pattern, if it has no more instructions than `limit`. -/
def Program.ofPattern (limit : Nat) (e : Pattern) : Except SizeError Program :=
  let (chain, emitter) := e.emit.run ⟨.none, 0⟩
  if limit < chain.size then .error (.tooLarge chain.size limit)
  else .ok (.ofBody (chain.link emitter.labels))

end Lockstep
