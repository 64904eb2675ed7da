import Lockstep.Machine.Scheduler
import Lockstep.Text.Basic

/-!
# Running a program

A run starts one thread at the beginning of a program and moves all threads over the text in
lockstep, one cell at a time. At each offset the waiting threads are visited in order of priority.
The first one that accepts makes a match and cuts off the threads behind it; those before it that
consume the cell go on. A match found later replaces one found earlier, since it stems from a
thread of higher priority. The run ends when no thread is left or when the text ends.

* `Found`: where a match ends, and the slots of its thread.
* `Visit`: what happened at one offset; `Outcome`: the result of a run and its visits.
* `Program.advance`: the threads that consume a character.
* `Program.runFrom`: a run with a given scheduler; `Program.run`: a run with a new one.

If no cell starts at the first offset, only the instructions reached at once matter, as at the end
of a text.
-/

namespace Lockstep

/-- The offset where a match ends, and the slots of the thread that accepted there. -/
structure Found where
  finish : Nat
  slots : Slots
  deriving DecidableEq, Repr

/-- What happened at one offset: the positions of the waiting threads in order of priority, and the
slots of the thread that accepted, if one did. -/
structure Visit where
  offset : Nat
  positions : List Nat
  accepted : Option Slots
  deriving DecidableEq, Repr

/-- The match made in a visit. -/
def Visit.found? (v : Visit) : Option Found := v.accepted.map fun slots => ⟨v.offset, slots⟩

/-- The result of a run. -/
structure Outcome where
  /-- The match, if there is one. -/
  found : Option Found
  /-- The offsets where threads were waiting, in order. -/
  visits : Array Visit
  /-- The greatest number of instructions admitted at one offset. -/
  peak : Nat
  /-- The number of instructions admitted in all. -/
  work : Nat
  deriving DecidableEq, Repr

namespace Program

/-- Whether a thread waits at an instruction that accepts. -/
def isAccepting (p : Program) (thread : Thread) : Bool := p.body[thread.position]? == some .accept

/-- The threads that consume a character, each behind the instruction that consumed it. -/
def advance (p : Program) (c : Char) (threads : List Thread) : List Thread :=
  (threads.filter fun thread => p.body[thread.position]?.any (·.accepts c)).map fun thread =>
    ⟨thread.position + 1, thread.slots⟩

/-- The visit of threads that wait at `offset`. -/
def visit (p : Program) (offset : Nat) (threads : List Thread) : Visit :=
  ⟨offset, threads.map Thread.position, (threads.find? p.isAccepting).map Thread.slots⟩

/-- Moves the threads that wait at `offset` over the cells from there on. `found` is the match
made so far, and `visits` are the visits so far. -/
def moveOn (p : Program) (cells : List Cell) (offset : Nat) (s : Scheduler p.size)
    (threads : List Thread) (found : Option Found) (visits : Array Visit) :
    Scheduler p.size × Option Found × Array Visit :=
  if threads.isEmpty then (s, found, visits)
  else
    let visit := p.visit offset threads
    let found := visit.found?.or found
    let visits := visits.push visit
    match cells with
    | [] => (s, found, visits)
    | cell :: rest =>
      let ahead := threads.takeWhile (!p.isAccepting ·)
      let (s, next) := s.walk p (offset + cell.width) #[] (p.advance cell.char ahead)
      moveOn p rest (offset + cell.width) s next.toList found visits

section MoveOn

variable {p : Program} {cells : List Cell} {offset : Nat} {s : Scheduler p.size}
  {threads : List Thread} {found : Option Found} {visits : Array Visit}

/-- A run ends when no thread is left. -/
@[simp] theorem moveOn_nil : p.moveOn cells offset s [] found visits = (s, found, visits) := by
  rw [moveOn, if_pos List.isEmpty_nil]

/-- A run ends with the text. -/
theorem moveOn_end (h : threads ≠ []) :
    p.moveOn [] offset s threads found visits =
      (s, (p.visit offset threads).found?.or found, visits.push (p.visit offset threads)) := by
  rw [moveOn, if_neg (by simpa using h)]

/-- A run goes on with the threads ahead of the first one that accepts. -/
theorem moveOn_cons {cell : Cell} (h : threads ≠ []) :
    p.moveOn (cell :: cells) offset s threads found visits =
      let next := s.walk p (offset + cell.width) #[]
        (p.advance cell.char (threads.takeWhile (!p.isAccepting ·)))
      p.moveOn cells (offset + cell.width) next.1 next.2.toList
        ((p.visit offset threads).found?.or found) (visits.push (p.visit offset threads)) := by
  rw [moveOn, if_neg (by simpa using h)]

end MoveOn

/-- A run over the cells from offset `start` on, with a scheduler that earlier runs may have used.
-/
def runFrom (p : Program) (s : Scheduler p.size) (cells : List Cell) (start : Nat) :
    Outcome × Scheduler p.size :=
  let slots := Array.replicate p.slotCount none
  let (s, threads) := s.start.walk p start #[] [⟨0, slots⟩]
  let (s, found, visits) := p.moveOn cells start s threads.toList none #[]
  (⟨found, visits, s.peak, s.work⟩, s)

/-- A run over a text from offset `start` on. -/
def run (p : Program) (t : Text) (start : Nat) : Outcome :=
  (p.runFrom (.initial p.size) (t.cellsFrom start) start).1

end Program

end Lockstep
