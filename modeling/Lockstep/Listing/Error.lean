import Lockstep.Listing.Opcode

/-!
# Errors in listings

* `Listing.Fault`: what is wrong with a listing; `Listing.Fault.message` words it.
* `Listing.Error`: a fault and the line where it was found, counted from one.
-/

namespace Lockstep.Listing

/-- What is wrong with a listing. -/
inductive Fault where
  /-- A word in the place of an operation names none. -/
  | unknownOpcode (word : String)
  /-- An operation has the wrong number of operands. -/
  | operandCount (op : Opcode) (found : Nat)
  /-- A word in the place of a character writes none. -/
  | invalidChar (word : String)
  /-- A word in the place of a slot writes no number, or one that is too large. -/
  | invalidNumber (word : String)
  /-- A word in the place of a target is neither a label nor a number. -/
  | unknownLabel (word : String)
  /-- A label is defined a second time. -/
  | duplicateLabel (name : String)
  /-- A label has no instruction after it. -/
  | danglingLabel (name : String)
  deriving DecidableEq, Repr

/-- The wording of a fault. -/
def Fault.message : Fault → String
  | unknownOpcode word => "unknown opcode `" ++ word ++ "`"
  | operandCount op found =>
    "`" ++ op.name ++ "` takes " ++ op.arity.description ++ " operand(s), found " ++ toString found
  | invalidChar word => "invalid character literal `" ++ word ++ "`"
  | invalidNumber word => "invalid number `" ++ word ++ "`"
  | unknownLabel word => "unknown label `" ++ word ++ "`"
  | duplicateLabel name => "duplicate label `" ++ name ++ "`"
  | danglingLabel name => "label `" ++ name ++ "` does not precede an instruction"

/-- A fault and the line where it was found. -/
structure Error where
  line : Nat
  fault : Fault
  deriving DecidableEq, Repr

/-- The wording of an error in a listing. -/
def Error.message (e : Error) : String :=
  "Error decoding program: line " ++ toString e.line ++ ": " ++ e.fault.message

end Lockstep.Listing
