import Lockstep.Listing.Opcode
import Lockstep.Listing.Operand
import Lockstep.Listing.Statement
import Lockstep.Program.Basic

/-!
# Writing programs

Each instruction of a program becomes an operation. The instructions that some `jump` or `split`
names are labelled, and the labels are numbered from one in the order of the instructions; a
target outside the program has no instruction to carry a label and is written as a number.

* `Listing.labelNumbers`: the number of the label of each instruction.
* `Listing.operation`: the operation of an instruction.
* `Listing.statements`: the statements of a program; `Program.listing`: its text.
-/

namespace Lockstep

namespace Listing

/-- Which instructions are named by some instruction. -/
def named (body : Array Instruction) : Array Bool :=
  body.foldl (fun marks i => i.targets.foldl (fun marks t => marks.setIfInBounds t true) marks)
    (Array.replicate body.size false)

/-- The members that are `true`, numbered from `n` on. -/
def numberFrom (n : Nat) : List Bool → List (Option Nat)
  | [] => []
  | false :: rest => none :: numberFrom n rest
  | true :: rest => some n :: numberFrom (n + 1) rest

/-- The number of the label of each instruction that has one. -/
def labelNumbers (body : Array Instruction) : Array (Option Nat) :=
  (numberFrom 1 (named body).toList).toArray

/-- The name of a label. -/
def labelOfNumber (n : Nat) : String := "L" ++ toString n

/-- A target, by its label if it has one. -/
def writeTarget (numbers : Array (Option Nat)) (target : Nat) : String :=
  match numbers[target]?.join with
  | some n => labelOfNumber n
  | none => toString target

/-- Ranges, as the characters at their ends. -/
def writeRanges (ranges : List CharRange) : List String :=
  ranges.flatMap fun range => [writeChar range.lo, writeChar range.hi]

/-- The operation of an instruction. -/
def operation (numbers : Array (Option Nat)) : Instruction → Statement
  | .char c => .operation Opcode.char.name [writeChar c]
  | .any => .operation Opcode.any.name []
  | .inside ranges => .operation Opcode.range.name (writeRanges ranges)
  | .outside ranges => .operation Opcode.nrange.name (writeRanges ranges)
  | .accept => .operation Opcode.accept.name []
  | .jump target => .operation Opcode.jump.name [writeTarget numbers target]
  | .split first second =>
    .operation Opcode.split.name [writeTarget numbers first, writeTarget numbers second]
  | .save slot => .operation Opcode.save.name [toString slot]

/-- The statements of an instruction: its label, if it has one, and its operation. -/
def statementsAt (numbers : Array (Option Nat)) (i : Instruction) (ix : Nat) : List Statement :=
  match numbers[ix]?.join with
  | some n => [.label (labelOfNumber n), operation numbers i]
  | none => [operation numbers i]

/-- The statements of a program. -/
def statements (p : Program) : List Statement :=
  let numbers := labelNumbers p.body
  p.body.toList.zipIdx.flatMap fun (i, ix) => statementsAt numbers i ix

end Listing

/-- The text form of a program. -/
def Program.listing (p : Program) : String := Listing.render (Listing.statements p)

end Lockstep
