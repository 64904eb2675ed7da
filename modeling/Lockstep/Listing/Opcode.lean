/-!
# Operation names

Each kind of instruction has a name in listings and takes a fixed number of operands, or any even
number.

* `Listing.Arity`, with `Arity.admits` and `Arity.description`.
* `Listing.Opcode`, with `Opcode.name`, `Opcode.ofName?` and `Opcode.arity`.
-/

namespace Lockstep.Listing

/-- How many operands an operation takes. -/
inductive Arity where
  | exactly (n : Nat)
  | even
  deriving DecidableEq, Repr

/-- Whether a number of operands is right. -/
def Arity.admits : Arity → Nat → Bool
  | exactly n, k => k == n
  | even, k => k % 2 == 0

/-- How an arity is called in messages. -/
def Arity.description : Arity → String
  | exactly n => toString n
  | even => "an even number of"

/-- The name of a kind of instruction. -/
inductive Opcode where
  | char
  | any
  | range
  | nrange
  | accept
  | jump
  | split
  | save
  deriving DecidableEq, Repr

namespace Opcode

/-- How an operation is written. -/
def name : Opcode → String
  | char => "char"
  | any => "any"
  | range => "range"
  | nrange => "nrange"
  | accept => "match"
  | jump => "jump"
  | split => "split"
  | save => "save"

/-- All operations. -/
def all : List Opcode := [char, any, range, nrange, accept, jump, split, save]

/-- The operation that a word names. -/
def ofName? (word : String) : Option Opcode := all.find? (·.name == word)

@[simp] theorem ofName?_name (op : Opcode) : ofName? op.name = some op := by
  cases op <;> decide

/-- How many operands an operation takes. -/
def arity : Opcode → Arity
  | char => .exactly 1
  | any => .exactly 0
  | range => .even
  | nrange => .even
  | accept => .exactly 0
  | jump => .exactly 1
  | split => .exactly 2
  | save => .exactly 1

end Opcode

end Lockstep.Listing
