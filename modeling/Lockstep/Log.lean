import Lockstep.Machine.Run

/-!
# The log

What the engine reports while it works. Building a regex reports the size of its program; a run
that is traced reports its visits.

* `unsetWord`, `Slots.words`: slots as machine words, in which the greatest word stands for no
  offset.
* `LogLine`, with `LogLine.render`: a line of the log.
* `Outcome.trace`: the lines of a run.
-/

namespace Lockstep

/-- The word that stands for a slot without an offset. -/
def unsetWord : Nat := maxWord

/-- A slot as a machine word. -/
def slotWord (slot : Option Nat) : Nat := slot.getD unsetWord

/-- Slots as machine words. -/
def Slots.words (slots : Slots) : List Nat := slots.toList.map slotWord

/-- A line of the log. -/
inductive LogLine where
  /-- A pattern has been turned into a program. -/
  | compiled (instructions slots : Nat)
  /-- A program has been taken as it is. -/
  | loaded (instructions : Nat)
  /-- A run starts. -/
  | started
  /-- Threads wait at an offset. -/
  | waiting (offset : Nat) (positions : List Nat)
  /-- A thread accepts at an offset. -/
  | accepted (offset : Nat) (slots : Slots)
  /-- A run ends. -/
  | peak (threads : Nat)
  deriving DecidableEq, Repr

/-- Numbers in brackets, with commas between them. -/
def renderNumbers (numbers : List Nat) : String :=
  "[" ++ ", ".intercalate (numbers.map toString) ++ "]"

/-- A line of the log as a text, with its level in front. -/
def LogLine.render : LogLine → String
  | compiled instructions slots =>
    "DEBUG compiled program: " ++ toString instructions ++ " instructions, " ++ toString slots ++
      " capture slots"
  | loaded instructions => "DEBUG loaded program: " ++ toString instructions ++ " instructions"
  | started => "TRACE pos\tthreads"
  | waiting offset positions => "TRACE " ++ toString offset ++ "\t" ++ renderNumbers positions
  | accepted offset slots =>
    "TRACE match at " ++ toString offset ++ ": " ++ renderNumbers slots.words
  | peak threads => "TRACE peak threads per position: " ++ toString threads

/-- The lines of a visit. -/
def Visit.trace (v : Visit) : List LogLine :=
  .waiting v.offset v.positions :: (v.accepted.map (LogLine.accepted v.offset)).toList

/-- The lines of a run. -/
def Outcome.trace (o : Outcome) : List LogLine :=
  .started :: o.visits.toList.flatMap Visit.trace ++ [.peak o.peak]

end Lockstep
