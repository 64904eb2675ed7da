import Lockstep.Listing.Error
import Lockstep.Listing.Operand
import Lockstep.Listing.Statement
import Lockstep.Program.Basic

/-!
# Reading programs

The statements of a listing are assembled in three steps. First the labels are collected, each
with the position of the instruction after it; a name must not occur twice. Then no label may be
left without an instruction. Last, the operations are read in order; targets are labels, wherever
these are defined, or else numbers.

* `Listing.Label`; `Listing.labels`: the labels of a list of statements.
* `Listing.readOperation`: the instruction that an operation makes.
* `Listing.assemble`: the program of a list of statements; `Program.ofListing`: the program of a
  text.
-/

namespace Lockstep

namespace Listing

/-- A label, the line where it is defined and the position of the instruction that it names. -/
structure Label where
  name : String
  line : Nat
  position : Nat
  deriving DecidableEq, Repr

/-- The labels of a list of statements, of which the first operation has position `position`. -/
def labels (position : Nat) : List Located → List Label
  | [] => []
  | ⟨line, .label name⟩ :: rest => ⟨name, line, position⟩ :: labels position rest
  | ⟨_, .operation _ _⟩ :: rest => labels (position + 1) rest

/-- The first label whose name has been seen before. -/
def firstRepeated? (seen : List String) : List Label → Option Label
  | [] => none
  | label :: rest =>
    if label.name ∈ seen then some label else firstRepeated? (label.name :: seen) rest

/-- An operation and the line where it stands. -/
structure Operation where
  line : Nat
  word : String
  operands : List String
  deriving DecidableEq, Repr

/-- The operations of a list of statements. -/
def operations : List Located → List Operation
  | [] => []
  | ⟨_, .label _⟩ :: rest => operations rest
  | ⟨line, .operation word operands⟩ :: rest => ⟨line, word, operands⟩ :: operations rest

/-- The position that a word names: that of the label of this name, or else a number. -/
def readTarget (labels : List Label) (word : String) : Except Fault Nat :=
  match labels.find? (·.name == word) with
  | some label => .ok label.position
  | none => ((readNumber? maxWord word).map .ok).getD (.error (.unknownLabel word))

/-- The character that a word writes. -/
def readChar (word : String) : Except Fault Char :=
  ((readChar? word).map .ok).getD (.error (.invalidChar word))

/-- The greatest slot that a listing can name. -/
def maxSlot : Nat := UInt32.size - 1

/-- The slot that a word writes. -/
def readSlot (word : String) : Except Fault Nat :=
  ((readNumber? maxSlot word).map .ok).getD (.error (.invalidNumber word))

/-- The ranges that words write, two words for each. -/
def readRanges : List String → Except Fault (List CharRange)
  | lo :: hi :: rest => do
    let lo ← readChar lo
    let hi ← readChar hi
    return ⟨lo, hi⟩ :: (← readRanges rest)
  | _ => return []

/-- The instruction of an operation with operands of the right number. -/
def readOperands (labels : List Label) : Opcode → List String → Except Fault Instruction
  | .char, [c] => return .char (← readChar c)
  | .any, [] => return .any
  | .range, operands => return .inside (← readRanges operands)
  | .nrange, operands => return .outside (← readRanges operands)
  | .accept, [] => return .accept
  | .jump, [target] => return .jump (← readTarget labels target)
  | .split, [first, second] => do
    let first ← readTarget labels first
    let second ← readTarget labels second
    return .split first second
  | .save, [slot] => return .save (← readSlot slot)
  | op, operands => .error (.operandCount op operands.length)

/-- The instruction that an operation makes. -/
def readOperation (labels : List Label) (word : String) (operands : List String) :
    Except Fault Instruction :=
  match Opcode.ofName? word with
  | none => .error (.unknownOpcode word)
  | some op =>
    if op.arity.admits operands.length then readOperands labels op operands
    else .error (.operandCount op operands.length)

/-- The instruction that a located operation makes. -/
def Operation.read (labels : List Label) (o : Operation) : Except Error Instruction :=
  (readOperation labels o.word o.operands).mapError fun fault => ⟨o.line, fault⟩

/-- The program of a list of statements. -/
def assemble (statements : List Located) : Except Error Program :=
  let labels := labels 0 statements
  let operations := operations statements
  match firstRepeated? [] labels with
  | some label => .error ⟨label.line, .duplicateLabel label.name⟩
  | none =>
    match labels.find? (·.position == operations.length) with
    | some label => .error ⟨label.line, .danglingLabel label.name⟩
    | none => do
      let body ← operations.mapM (·.read labels)
      return .ofBody body.toArray

end Listing

/-- The program that a listing writes. -/
def Program.ofListing (text : String) : Except Listing.Error Program :=
  Listing.assemble (Listing.scan text)

end Lockstep
