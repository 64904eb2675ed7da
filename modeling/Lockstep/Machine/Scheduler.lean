import Lockstep.Program.Basic

/-!
# Scheduling threads

A thread waits at an instruction that consumes a character or accepts. The other instructions are
followed at once, by a walk that keeps the branches still to be tried on a stack, so that
everything behind the first target of a `split` is scheduled before its second target.

At one offset each instruction is admitted only once: a thread that comes to it later has lower
priority and the same future, so it is dropped. The mark of an instruction is the offset where it
was last admitted, together with the number of the run, so that marks need not be cleared between
runs.

* `Slots`, `Thread`: a position in the program and the offsets saved so far.
* `Instruction.follow`: where a thread goes without consuming a character.
* `Scheduler`: the marks, and counts of what has been admitted.
* `Scheduler.walk`: schedules the threads that are reached from those on a stack, in order.
-/

namespace Lockstep

/-- The offsets saved by a thread; a slot that was never saved to holds none. -/
abbrev Slots := Array (Option Nat)

/-- A position in a program and the offsets saved on the way there. -/
structure Thread where
  position : Nat
  slots : Slots
  deriving DecidableEq, Repr

/-- Where a thread goes from an instruction at offset `offset` without consuming a character, in
order of priority; `none` if it has to wait there. -/
def Instruction.follow (i : Instruction) (thread : Thread) (offset : Nat) : Option (List Thread) :=
  match i with
  | jump target => some [⟨target, thread.slots⟩]
  | split first second => some [⟨first, thread.slots⟩, ⟨second, thread.slots⟩]
  | save slot => some [⟨thread.position + 1, thread.slots.setIfInBounds slot (some offset)⟩]
  | _ => none

theorem Instruction.length_follow_le {i : Instruction} {thread : Thread} {offset : Nat}
    {next : List Thread} (h : i.follow thread offset = some next) : next.length ≤ 2 := by
  cases i <;> simp_all [follow] <;> subst h <;> simp

/-- When an instruction was last admitted: in which run, and at which offset. -/
structure Mark where
  run : Nat
  offset : Nat
  deriving DecidableEq, Repr

/-- What is known about the instructions of a program of the given size during a run. -/
structure Scheduler (size : Nat) where
  /-- When each instruction was last admitted. -/
  marks : Vector Mark size
  /-- The number of the current run. -/
  run : Nat
  /-- No mark stems from a run to come. -/
  marks_run_le : ∀ (i : Nat) (h : i < size), marks[i].run ≤ run
  /-- The offset that `admitted` counts for. -/
  offset : Nat
  /-- How many instructions have been admitted at that offset. -/
  admitted : Nat
  /-- The greatest number of instructions admitted at one offset in this run. -/
  peak : Nat
  /-- How many instructions have been admitted in this run. -/
  work : Nat

namespace Scheduler

variable {size : Nat}

/-- The scheduler before the first run. -/
def initial (size : Nat) : Scheduler size :=
  ⟨Vector.replicate size ⟨0, 0⟩, 0, by simp, 0, 0, 0, 0⟩

/-- The scheduler at the start of the next run, whose number no mark carries. -/
def start (s : Scheduler size) : Scheduler size :=
  { s with
    run := s.run + 1
    marks_run_le := fun i h => Nat.le_succ_of_le (s.marks_run_le i h)
    offset := 0
    admitted := 0
    peak := 0
    work := 0 }

/-- The mark of an instruction that is admitted at `offset`. -/
def mark (s : Scheduler size) (offset : Nat) : Mark := ⟨s.run, offset⟩

/-- Whether an instruction has been admitted at `offset` in this run. -/
def isMarked (s : Scheduler size) (position : Fin size) (offset : Nat) : Bool :=
  s.marks[position] == s.mark offset

/-- Admits an instruction at `offset`. -/
def enter (s : Scheduler size) (position : Fin size) (offset : Nat) : Scheduler size :=
  let admitted := if s.offset = offset then s.admitted + 1 else 1
  { s with
    marks := s.marks.set position (s.mark offset)
    marks_run_le := fun i h => by
      rw [Vector.getElem_set]
      split
      · exact Nat.le_refl _
      · exact s.marks_run_le i h
    offset := offset
    admitted := admitted
    peak := max s.peak admitted
    work := s.work + 1 }

/-- How many instructions have not been admitted at `offset` in this run. -/
def unmarked (s : Scheduler size) (offset : Nat) : Nat :=
  s.marks.countP (· != s.mark offset)

@[simp] theorem mark_enter (s : Scheduler size) (position : Fin size) (offset offset' : Nat) :
    (s.enter position offset).mark offset' = s.mark offset' := rfl

/-- Admitting an instruction leaves one fewer to be admitted. -/
theorem unmarked_enter {s : Scheduler size} {position : Fin size} {offset : Nat}
    (h : s.isMarked position offset = false) :
    (s.enter position offset).unmarked offset + 1 = s.unmarked offset := by
  have hp : (s.marks[position.val] != s.mark offset) = true := by
    simpa [isMarked] using h
  have hpos : 0 < s.marks.countP (· != s.mark offset) :=
    Vector.countP_pos_iff.2 ⟨_, Vector.getElem_mem position.isLt, hp⟩
  have hset : (s.enter position offset).unmarked offset =
      (s.marks.set position (s.mark offset)).countP (· != s.mark offset) := rfl
  rw [hset, Vector.countP_set, if_pos hp, if_neg (by simp), unmarked]
  omega

/-- Schedules the threads that are reached from those on a stack, adding them to `threads` in
order. -/
def walk (p : Program) (offset : Nat) (s : Scheduler p.size) (threads : Array Thread)
    (stack : List Thread) : Scheduler p.size × Array Thread :=
  match stack with
  | [] => (s, threads)
  | thread :: rest =>
    if h : thread.position < p.size then
      if hm : s.isMarked ⟨thread.position, h⟩ offset then walk p offset s threads rest
      else
        match hf : p.body[thread.position].follow thread offset with
        | some next => walk p offset (s.enter ⟨thread.position, h⟩ offset) threads (next ++ rest)
        | none => walk p offset (s.enter ⟨thread.position, h⟩ offset) (threads.push thread) rest
    else walk p offset s threads rest
  termination_by 2 * s.unmarked offset + stack.length
  decreasing_by
    · simp
    · have henter := unmarked_enter (Bool.not_eq_true _ ▸ hm)
      have hlen := Instruction.length_follow_le hf
      simp only [List.length_append, List.length_cons]
      omega
    · have henter := unmarked_enter (Bool.not_eq_true _ ▸ hm)
      simp only [List.length_cons]
      omega
    · simp

section Walk

variable {p : Program} {offset : Nat} {s : Scheduler p.size} {threads : Array Thread}
  {thread : Thread} {rest : List Thread}

@[simp] theorem walk_nil : s.walk p offset threads [] = (s, threads) := by
  rw [walk]

/-- A thread outside the program dies. -/
theorem walk_dead (h : p.size ≤ thread.position) :
    s.walk p offset threads (thread :: rest) = s.walk p offset threads rest := by
  rw [walk, dif_neg (Nat.not_lt.2 h)]

/-- A thread that comes to an instruction a second time is dropped. -/
theorem walk_marked (h : thread.position < p.size)
    (hm : s.isMarked ⟨thread.position, h⟩ offset = true) :
    s.walk p offset threads (thread :: rest) = s.walk p offset threads rest := by
  rw [walk, dif_pos h, dif_pos hm]

/-- An instruction that consumes nothing is followed at once. -/
theorem walk_follow (h : thread.position < p.size)
    (hm : s.isMarked ⟨thread.position, h⟩ offset = false) {next : List Thread}
    (hf : p.body[thread.position].follow thread offset = some next) :
    s.walk p offset threads (thread :: rest) =
      (s.enter ⟨thread.position, h⟩ offset).walk p offset threads (next ++ rest) := by
  rw [walk, dif_pos h, dif_neg (by simp [hm])]
  split <;> simp_all

/-- A thread that has to wait is scheduled. -/
theorem walk_wait (h : thread.position < p.size)
    (hm : s.isMarked ⟨thread.position, h⟩ offset = false)
    (hf : p.body[thread.position].follow thread offset = none) :
    s.walk p offset threads (thread :: rest) =
      (s.enter ⟨thread.position, h⟩ offset).walk p offset (threads.push thread) rest := by
  rw [walk, dif_pos h, dif_neg (by simp [hm])]
  split <;> simp_all

end Walk

end Scheduler

end Lockstep
