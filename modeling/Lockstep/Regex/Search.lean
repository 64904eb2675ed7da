import Lockstep.Regex.Basic
import Lockstep.Regex.Captures

/-!
# Searching

The same scheduler serves all searches with a regex, and every search leaves it ready for the next
one. A search is anchored: it looks for a match at one offset only. A scan starts searches at one
boundary after the other, the end of the text included, and stops at the first match.

* `Searching`: the scheduler of a regex, and the log of its runs; `Search`: what uses it.
* `Regex.runFrom`: one run; `Regex.scan`: runs from one boundary after the other.
* `Regex.matchLength`, `Regex.isMatch`, `Regex.execInto`, `Regex.captures`: searches at offset
  zero.
* `Regex.findAt`, `Regex.capturesAt`: scans from an offset on.
-/

namespace Lockstep

/-- The scheduler of a regex, and what its runs have reported. -/
structure Searching (re : Regex) where
  scheduler : Scheduler re.program.size
  log : Array LogLine

/-- Before the first search. -/
def Searching.initial (re : Regex) : Searching re := ⟨.initial re.program.size, #[]⟩

/-- A computation that searches with a regex. -/
abbrev Search (re : Regex) := StateM (Searching re)

namespace Regex

variable (re : Regex)

/-- Runs the program over the cells from offset `start` on. -/
def runFrom (cells : List Cell) (start : Nat) : Search re (Option Found) :=
  modifyGet fun s =>
    let (outcome, scheduler) := re.program.runFrom s.scheduler cells start
    (outcome.found, ⟨scheduler, if re.tracing then s.log ++ outcome.trace else s.log⟩)

/-- Runs the program at offset `start`, then at the boundaries after it, up to the first match. The
answer is the offset where the match starts, and the match. -/
def scan (cells : List Cell) (start : Nat) : Search re (Option (Nat × Found)) := do
  match ← re.runFrom cells start with
  | some found => return some (start, found)
  | none =>
    match cells with
    | [] => return none
    | cell :: rest => scan rest (start + cell.width)

/-- The length of the match at the start of a text. -/
def matchLength (t : Text) : Search re (Option Nat) :=
  return (← re.runFrom t.cells 0).map Found.finish

/-- Whether there is a match at the start of a text. -/
def isMatch (t : Text) : Search re Bool := return (← re.matchLength t).isSome

/-- The length of the match at the start of a text, and its slots in place of the given ones.
Without a match the given slots are kept. -/
def execInto (slots : Slots) (t : Text) : Search re (Option Nat × Slots) := do
  match ← re.runFrom t.cells 0 with
  | some found => return (some found.finish, found.slots)
  | none => return (none, slots)

/-- The match at the start of a text, with its groups. -/
def captures (t : Text) : Search re (Option Captures) :=
  return (← re.runFrom t.cells 0).map fun found => ⟨t, 0, found.finish, found.slots⟩

/-- The first match that starts at offset `pos` or after it. -/
def findAt (t : Text) (pos : Nat) : Search re (Option Match) :=
  return (← re.scan (t.cellsFrom pos) pos).map fun (start, found) => ⟨t, start, found.finish⟩

/-- The first match that starts at offset `pos` or after it, with its groups. -/
def capturesAt (t : Text) (pos : Nat) : Search re (Option Captures) :=
  return (← re.scan (t.cellsFrom pos) pos).map fun (start, found) =>
    ⟨t, start, found.finish, found.slots⟩

end Regex

end Lockstep
