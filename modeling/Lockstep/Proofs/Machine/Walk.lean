import Lockstep.Machine.Scheduler
import Mathlib.Data.List.Basic

/-!
# The walk of the scheduler

The walk keeps its pending branches on a stack, but what it does with a thread does not depend on
what lies below: a stack is walked one thread after the other, and the threads behind an instruction
that is followed are walked before the rest of the stack. So the walk satisfies the equations of a
recursive one, and it can be reasoned about by the induction that goes with them.

* `Instruction.next?`: the positions behind an instruction that is followed; `Program.Waits`: a
  thread is at an instruction that is not.
* `Scheduler.Marked`: an instruction has been admitted at an offset of the current run.
* `Scheduler.after`, `Scheduler.reached`: the scheduler after a walk, and the threads scheduled by
  it, with one equation for each branch of the walk.
* `Scheduler.walkRecursion`: the induction that follows these equations.
* `Scheduler.Marked.after`, `Scheduler.Marked.of_after`: marks are kept, and new ones are made at
  the offset of the walk only.
-/

namespace Lockstep

namespace Instruction

/-- The positions behind an instruction at `position` that is followed, in order of priority;
`none` if a thread has to wait there. -/
def next? (i : Instruction) (position : Nat) : Option (List Nat) :=
  match i with
  | jump target => some [target]
  | split first second => some [first, second]
  | save _ => some [position + 1]
  | _ => none

/-- Where a thread goes depends on its position only. -/
theorem map_follow (i : Instruction) (thread : Thread) (offset : Nat) :
    (i.follow thread offset).map (List.map Thread.position) = i.next? thread.position := by
  cases i <;> rfl

theorem follow_eq_none_iff {i : Instruction} {thread : Thread} {offset : Nat} :
    i.follow thread offset = none ↔ i.next? thread.position = none := by
  rw [← i.map_follow thread offset, Option.map_eq_none_iff]

theorem next?_of_follow {i : Instruction} {thread : Thread} {offset : Nat} {next : List Thread}
    (h : i.follow thread offset = some next) :
    i.next? thread.position = some (next.map Thread.position) := by
  rw [← i.map_follow thread offset, h, Option.map_some]

theorem next?_of_accepts {i : Instruction} {c : Char} (h : i.accepts c = true) (position : Nat) :
    i.next? position = none := by
  cases i <;> first | rfl | cases h

theorem ne_accept_of_accepts {i : Instruction} {c : Char} (h : i.accepts c = true) :
    i ≠ accept := by
  rintro rfl
  cases h

end Instruction

/-- A thread waits at an instruction that is not followed. -/
def Program.Waits (p : Program) (thread : Thread) : Prop :=
  ∃ i, p.body[thread.position]? = some i ∧ i.next? thread.position = none

namespace Scheduler

/-! ### Marks -/

section Marks

variable {size : Nat} {s : Scheduler size} {offset offset' q : Nat} {position : Fin size}

/-- The instruction at `q` has been admitted at `offset` in the current run. -/
def Marked (s : Scheduler size) (offset q : Nat) : Prop :=
  ∃ h : q < size, s.isMarked ⟨q, h⟩ offset = true

theorem isMarked_eq_true_iff {h : q < size} :
    s.isMarked ⟨q, h⟩ offset = true ↔ s.Marked offset q :=
  ⟨fun hm => ⟨h, hm⟩, fun hm => hm.2⟩

theorem isMarked_eq_false_iff {h : q < size} :
    s.isMarked ⟨q, h⟩ offset = false ↔ ¬ s.Marked offset q := by
  rw [← isMarked_eq_true_iff (h := h), Bool.not_eq_true]

theorem marked_iff : s.Marked offset q ↔ ∃ h : q < size, s.marks[q] = ⟨s.run, offset⟩ := by
  simp [Marked, isMarked, mark]

/-- Admitting an instruction marks it, and leaves the other marks for the same offset. -/
theorem marked_enter :
    (s.enter position offset).Marked offset q ↔ q = position ∨ s.Marked offset q := by
  rw [marked_iff, marked_iff]
  constructor
  · rintro ⟨h, hq⟩
    by_cases he : q = position
    · exact Or.inl he
    · refine Or.inr ⟨h, ?_⟩
      have hne : position.val ≠ q := fun h => he h.symm
      simpa [enter, Vector.getElem_set, hne] using hq
  · rintro (rfl | ⟨h, hq⟩)
    · exact ⟨position.isLt, by simp [enter, mark]⟩
    · refine ⟨h, ?_⟩
      by_cases he : position.val = q
      · simp [enter, mark, he]
      · simpa [enter, Vector.getElem_set, he] using hq

/-- Admitting an instruction marks nothing for another offset. -/
theorem Marked.of_enter (h : (s.enter position offset).Marked offset' q) (hne : offset' ≠ offset) :
    s.Marked offset' q := by
  rw [marked_iff] at h ⊢
  obtain ⟨hlt, hq⟩ := h
  refine ⟨hlt, ?_⟩
  by_cases he : position.val = q
  · simp [enter, mark, he] at hq
    exact absurd hq.symm hne
  · simpa [enter, Vector.getElem_set, he] using hq

/-- Nothing is marked when a run starts, whatever earlier runs have marked. -/
theorem not_marked_start : ¬ s.start.Marked offset q := by
  rw [marked_iff]
  rintro ⟨h, hq⟩
  have hle := s.marks_run_le q h
  have hrun : s.marks[q].run = s.run + 1 := congrArg Mark.run hq
  omega

end Marks

/-! ### The walk, one thread after the other -/

section Walk

variable {p : Program} {offset : Nat}

/-- A stack is walked one thread after the other. -/
theorem walk_append (s : Scheduler p.size) (offset : Nat) (threads : Array Thread)
    (xs ys : List Thread) :
    s.walk p offset threads (xs ++ ys) =
      (s.walk p offset threads xs).1.walk p offset (s.walk p offset threads xs).2 ys := by
  induction s, threads, xs using walk.induct p offset with
  | case1 s threads => rw [List.nil_append, walk_nil]
  | case2 s threads thread rest h hm ih =>
    rw [List.cons_append, walk_marked h hm, walk_marked h hm, ih]
  | case3 s threads thread rest h hm next hf ih =>
    rw [Bool.not_eq_true] at hm
    rw [List.cons_append, walk_follow h hm hf, walk_follow h hm hf, ← List.append_assoc, ih]
  | case4 s threads thread rest h hm hf ih =>
    rw [Bool.not_eq_true] at hm
    rw [List.cons_append, walk_wait h hm hf, walk_wait h hm hf, ih]
  | case5 s threads thread rest h ih =>
    rw [Nat.not_lt] at h
    rw [List.cons_append, walk_dead h, walk_dead h, ih]

/-- What has been scheduled before has no influence on a walk. -/
theorem walk_eq_append (s : Scheduler p.size) (offset : Nat) (threads : Array Thread)
    (stack : List Thread) :
    ∀ earlier : Array Thread, s.walk p offset (earlier ++ threads) stack =
      ((s.walk p offset threads stack).1, earlier ++ (s.walk p offset threads stack).2) := by
  induction s, threads, stack using walk.induct p offset with
  | case1 s threads => simp
  | case2 s threads thread rest h hm ih =>
    intro earlier
    rw [walk_marked h hm, walk_marked h hm, ih]
  | case3 s threads thread rest h hm next hf ih =>
    intro earlier
    rw [Bool.not_eq_true] at hm
    rw [walk_follow h hm hf, walk_follow h hm hf, ih]
  | case4 s threads thread rest h hm hf ih =>
    intro earlier
    rw [Bool.not_eq_true] at hm
    rw [walk_wait h hm hf, walk_wait h hm hf, ← Array.append_push, ih]
  | case5 s threads thread rest h ih =>
    intro earlier
    rw [Nat.not_lt] at h
    rw [walk_dead h, walk_dead h, ih]

/-- A walk takes no mark away. -/
theorem unmarked_walk_le (s : Scheduler p.size) (offset : Nat) (threads : Array Thread)
    (stack : List Thread) :
    (s.walk p offset threads stack).1.unmarked offset ≤ s.unmarked offset := by
  induction s, threads, stack using walk.induct p offset with
  | case1 s threads => simp
  | case2 s threads thread rest h hm ih => rwa [walk_marked h hm]
  | case3 s threads thread rest h hm next hf ih =>
    rw [Bool.not_eq_true] at hm
    have := unmarked_enter hm
    rw [walk_follow h hm hf]
    omega
  | case4 s threads thread rest h hm hf ih =>
    rw [Bool.not_eq_true] at hm
    have := unmarked_enter hm
    rw [walk_wait h hm hf]
    omega
  | case5 s threads thread rest h ih => rwa [walk_dead (Nat.not_lt.1 h)]

/-- The scheduler after the walk of a stack. -/
def after (s : Scheduler p.size) (offset : Nat) (stack : List Thread) : Scheduler p.size :=
  (s.walk p offset #[] stack).1

/-- The threads that the walk of a stack schedules, in order. -/
def reached (s : Scheduler p.size) (offset : Nat) (stack : List Thread) : List Thread :=
  (s.walk p offset #[] stack).2.toList

/-- A walk in terms of what it schedules and of the scheduler after it. -/
theorem walk_eq_after (s : Scheduler p.size) (offset : Nat) (threads : Array Thread)
    (stack : List Thread) :
    s.walk p offset threads stack =
      (s.after offset stack, threads ++ (s.reached offset stack).toArray) := by
  have h := s.walk_eq_append offset #[] stack threads
  rwa [Array.append_empty] at h

variable {s : Scheduler p.size} {thread : Thread} {rest next : List Thread}

@[simp] theorem after_nil : s.after offset [] = s := by rw [after, walk_nil]

@[simp] theorem reached_nil : s.reached offset [] = [] := by rw [reached, walk_nil]

theorem after_append (s : Scheduler p.size) (xs ys : List Thread) :
    s.after offset (xs ++ ys) = (s.after offset xs).after offset ys := by
  rw [after, walk_append, walk_eq_after]
  rfl

theorem reached_append (s : Scheduler p.size) (xs ys : List Thread) :
    s.reached offset (xs ++ ys) =
      s.reached offset xs ++ (s.after offset xs).reached offset ys := by
  rw [reached, walk_append, walk_eq_after, Array.toList_append]
  rfl

theorem after_dead (h : p.size ≤ thread.position) :
    s.after offset (thread :: rest) = s.after offset rest := by
  rw [after, walk_dead h, after]

theorem reached_dead (h : p.size ≤ thread.position) :
    s.reached offset (thread :: rest) = s.reached offset rest := by
  rw [reached, walk_dead h, reached]

theorem after_marked (h : s.Marked offset thread.position) :
    s.after offset (thread :: rest) = s.after offset rest := by
  rw [after, walk_marked h.1 h.2, after]

theorem reached_marked (h : s.Marked offset thread.position) :
    s.reached offset (thread :: rest) = s.reached offset rest := by
  rw [reached, walk_marked h.1 h.2, reached]

section Enter

variable (h : thread.position < p.size) (hm : s.isMarked ⟨thread.position, h⟩ offset = false)
include hm

/-- The threads behind an instruction that is followed are walked before the rest of the stack. -/
theorem after_follow (hf : p.body[thread.position].follow thread offset = some next) :
    s.after offset (thread :: rest) =
      ((s.enter ⟨thread.position, h⟩ offset).after offset next).after offset rest := by
  rw [← after_append, after, walk_follow h hm hf, after]

theorem reached_follow (hf : p.body[thread.position].follow thread offset = some next) :
    s.reached offset (thread :: rest) =
      (s.enter ⟨thread.position, h⟩ offset).reached offset next ++
        ((s.enter ⟨thread.position, h⟩ offset).after offset next).reached offset rest := by
  rw [← reached_append, reached, walk_follow h hm hf, reached]

theorem after_wait (hf : p.body[thread.position].follow thread offset = none) :
    s.after offset (thread :: rest) =
      (s.enter ⟨thread.position, h⟩ offset).after offset rest := by
  rw [after, walk_wait h hm hf, walk_eq_after]

theorem reached_wait (hf : p.body[thread.position].follow thread offset = none) :
    s.reached offset (thread :: rest) =
      thread :: (s.enter ⟨thread.position, h⟩ offset).reached offset rest := by
  rw [reached, walk_wait h hm hf, walk_eq_after]
  simp

end Enter

/-- The induction that follows the walk as a recursive one: what is behind an instruction that is
followed comes before the rest of the stack, which starts with the marks made there. -/
theorem walkRecursion (offset : Nat) {motive : Scheduler p.size → List Thread → Prop}
    (nil : ∀ s, motive s [])
    (dead : ∀ s thread rest, p.size ≤ thread.position → motive s rest → motive s (thread :: rest))
    (marked : ∀ s thread rest, s.Marked offset thread.position →
      motive s rest → motive s (thread :: rest))
    (follow : ∀ s thread rest next (h : thread.position < p.size),
      s.isMarked ⟨thread.position, h⟩ offset = false →
      p.body[thread.position].follow thread offset = some next →
      motive (s.enter ⟨thread.position, h⟩ offset) next →
      motive ((s.enter ⟨thread.position, h⟩ offset).after offset next) rest →
      motive s (thread :: rest))
    (wait : ∀ s thread rest (h : thread.position < p.size),
      s.isMarked ⟨thread.position, h⟩ offset = false →
      p.body[thread.position].follow thread offset = none →
      motive (s.enter ⟨thread.position, h⟩ offset) rest → motive s (thread :: rest))
    (s : Scheduler p.size) (stack : List Thread) : motive s stack := by
  induction hn : 2 * s.unmarked offset + stack.length using Nat.strongRecOn
    generalizing s stack with
  | ind n ih =>
    subst hn
    cases stack with
    | nil => exact nil s
    | cons thread rest =>
      have hrest : motive s rest := ih _ (by simp) s rest rfl
      by_cases h : thread.position < p.size
      · by_cases hm : s.isMarked ⟨thread.position, h⟩ offset = true
        · exact marked s thread rest ⟨h, hm⟩ hrest
        · rw [Bool.not_eq_true] at hm
          have henter := unmarked_enter hm
          cases hf : p.body[thread.position].follow thread offset with
          | none =>
            exact wait s thread rest h hm hf
              (ih _ (by rw [List.length_cons]; omega) _ rest rfl)
          | some next =>
            have hlen := Instruction.length_follow_le hf
            -- The rest of the stack is walked with the marks made behind `next`, and that there are
            -- no fewer of them is all that is needed here.
            have hafter := (s.enter ⟨thread.position, h⟩ offset).unmarked_walk_le offset
              #[] next
            refine follow s thread rest next h hm hf
              (ih _ (by rw [List.length_cons]; omega) _ next rfl) (ih _ ?_ _ rest rfl)
            rw [after, List.length_cons]
            omega
      · exact dead s thread rest (Nat.not_lt.1 h) hrest

/-! ### Marks and threads after a walk -/

/-- A walk keeps the marks. -/
theorem Marked.after {q : Nat} (h : s.Marked offset q) (stack : List Thread) :
    (s.after offset stack).Marked offset q := by
  induction s, stack using walkRecursion offset with
  | nil s => rwa [after_nil]
  | dead s thread rest hd ih => rw [after_dead hd]; exact ih h
  | marked s thread rest hm ih => rw [after_marked hm]; exact ih h
  | follow s thread rest next hlt hm hf ih₁ ih₂ =>
    rw [after_follow hlt hm hf]
    exact ih₂ (ih₁ (marked_enter.2 (Or.inr h)))
  | wait s thread rest hlt hm hf ih =>
    rw [after_wait hlt hm hf]
    exact ih (marked_enter.2 (Or.inr h))

/-- A walk marks nothing for another offset than its own. -/
theorem Marked.of_after {offset' q : Nat} {stack : List Thread}
    (h : (s.after offset stack).Marked offset' q) (hne : offset' ≠ offset) :
    s.Marked offset' q := by
  induction s, stack using walkRecursion offset with
  | nil s => rwa [after_nil] at h
  | dead s thread rest hd ih => rw [after_dead hd] at h; exact ih h
  | marked s thread rest hm ih => rw [after_marked hm] at h; exact ih h
  | follow s thread rest next hlt hm hf ih₁ ih₂ =>
    rw [after_follow hlt hm hf] at h
    exact (ih₁ (ih₂ h)).of_enter hne
  | wait s thread rest hlt hm hf ih =>
    rw [after_wait hlt hm hf] at h
    exact (ih h).of_enter hne

/-- The threads that a walk schedules wait. -/
theorem waits_of_mem_reached {t : Thread} {stack : List Thread}
    (h : t ∈ s.reached offset stack) : p.Waits t := by
  induction s, stack using walkRecursion offset with
  | nil s => simp at h
  | dead s thread rest hd ih => rw [reached_dead hd] at h; exact ih h
  | marked s thread rest hm ih => rw [reached_marked hm] at h; exact ih h
  | follow s thread rest next hlt hm hf ih₁ ih₂ =>
    rw [reached_follow hlt hm hf, List.mem_append] at h
    exact h.elim ih₁ ih₂
  | wait s thread rest hlt hm hf ih =>
    rw [reached_wait hlt hm hf, List.mem_cons] at h
    rcases h with rfl | h
    · exact ⟨_, Array.getElem?_eq_getElem hlt, Instruction.follow_eq_none_iff.1 hf⟩
    · exact ih h

end Walk

end Scheduler

end Lockstep
