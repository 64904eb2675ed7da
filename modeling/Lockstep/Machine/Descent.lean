import Lockstep.Machine.Scheduler

/-!
# Adding a thread

What it means to schedule a thread can be said in three ways. Recursively: an instruction that is
admitted and followed is followed to the end, first target first, before anything else is done. With
a stack: one thread is followed from instruction to instruction, and the second target of every
`split` on its way is put on a stack, from which the next thread is taken when this one has come to
its end. And by what is reached: the instructions where a thread can wait that are reached through
instructions not admitted before, in the order of the choices that lead there.

* `Scheduler.Adds`: the recursive definition.
* `Walk`, with `Walk.step`: the loop with a stack; `Walk.measure` bounds the steps that it makes.
* `Program.Approach`: the ways to an instruction where a thread can wait, with the choices made on
  them and what they save; `Program.Arrivals`: threads in the order of the ways that they come by.
-/

namespace Lockstep

namespace Scheduler

/-- `Adds p offset s threads thread s' threads'` says that scheduling `thread` at `offset` turns the
scheduler `s` and the threads scheduled so far into `s'` and `threads'`. A thread outside the
program or at an instruction that has been admitted before is dropped. Otherwise the instruction is
admitted, and if the thread does not have to wait there, then it goes on behind it; at a `split`
this happens for the first target, and when all that is done, for the second one with the same
slots. -/
inductive Adds (p : Program) (offset : Nat) : Scheduler p.size → Array Thread → Thread →
    Scheduler p.size → Array Thread → Prop
  | dead {s threads thread} : p.size ≤ thread.position → Adds p offset s threads thread s threads
  | marked {s threads thread} (h : thread.position < p.size) :
    s.isMarked ⟨thread.position, h⟩ offset = true → Adds p offset s threads thread s threads
  | jump {s threads thread target s' threads'} (h : thread.position < p.size) :
    s.isMarked ⟨thread.position, h⟩ offset = false → p.body[thread.position] = .jump target →
    Adds p offset (s.enter ⟨thread.position, h⟩ offset) threads ⟨target, thread.slots⟩ s'
      threads' →
    Adds p offset s threads thread s' threads'
  | split {s threads thread first second s₁ threads₁ s' threads'} (h : thread.position < p.size) :
    s.isMarked ⟨thread.position, h⟩ offset = false →
    p.body[thread.position] = .split first second →
    Adds p offset (s.enter ⟨thread.position, h⟩ offset) threads ⟨first, thread.slots⟩ s₁
      threads₁ →
    Adds p offset s₁ threads₁ ⟨second, thread.slots⟩ s' threads' →
    Adds p offset s threads thread s' threads'
  | save {s threads thread slot s' threads'} (h : thread.position < p.size) :
    s.isMarked ⟨thread.position, h⟩ offset = false → p.body[thread.position] = .save slot →
    Adds p offset (s.enter ⟨thread.position, h⟩ offset) threads
      ⟨thread.position + 1, thread.slots.setIfInBounds slot (some offset)⟩ s' threads' →
    Adds p offset s threads thread s' threads'
  | wait {s threads thread} (h : thread.position < p.size) :
    s.isMarked ⟨thread.position, h⟩ offset = false →
    p.body[thread.position].follow thread offset = none →
    Adds p offset s threads thread (s.enter ⟨thread.position, h⟩ offset) (threads.push thread)

end Scheduler

/-- A walk that is under way. -/
structure Walk (size : Nat) where
  scheduler : Scheduler size
  /-- The threads scheduled so far. -/
  threads : Array Thread
  /-- The thread that is followed, if there is one. -/
  current : Option Thread
  /-- The threads to be followed after it, the next one first. -/
  stack : List Thread

namespace Walk

/-- A step of a walk: the next thread is taken from the stack, or the current thread is followed by
one instruction. A walk with neither is done. -/
def step (p : Program) (offset : Nat) (w : Walk p.size) : Walk p.size :=
  match w.current, w.stack with
  | none, [] => w
  | none, thread :: stack => { w with current := some thread, stack := stack }
  | some thread, stack =>
    if h : thread.position < p.size then
      if w.scheduler.isMarked ⟨thread.position, h⟩ offset then { w with current := none }
      else
        let s := w.scheduler.enter ⟨thread.position, h⟩ offset
        match p.body[thread.position] with
        | .jump target => { w with scheduler := s, current := some ⟨target, thread.slots⟩ }
        | .split first second =>
          { w with
            scheduler := s
            current := some ⟨first, thread.slots⟩
            stack := ⟨second, thread.slots⟩ :: stack }
        | .save slot =>
          { w with
            scheduler := s
            current := some
              ⟨thread.position + 1, thread.slots.setIfInBounds slot (some offset)⟩ }
        | _ => { w with scheduler := s, threads := w.threads.push thread, current := none }
    else { w with current := none }

/-- A bound on the steps until a walk is done: an instruction that is admitted may leave one more
thread on the stack, and every thread there is taken from it and comes to an end. -/
def measure (offset : Nat) {size : Nat} (w : Walk size) : Nat :=
  3 * w.scheduler.unmarked offset + 2 * w.stack.length + w.current.toList.length

end Walk

namespace Program

/-- `p.Approach free offset q slots entered choices target saved` says that a thread at `q` with
`slots` comes to wait at `target` with the slots `saved` if it makes the given `choices`, and passes
only positions that are free on its way, each of them once; `entered` are those passed before. Of
two ways the one with the smaller choices has priority, where `false` stands for the first target of
a `split`. -/
inductive Approach (p : Program) (free : Nat → Prop) (offset : Nat) :
    Nat → Slots → List Nat → List Bool → Nat → Slots → Prop
  | wait {q slots entered i} : p.body[q]? = some i → i.follow ⟨q, slots⟩ offset = none → free q →
    q ∉ entered → Approach p free offset q slots entered [] q slots
  | jump {q slots entered t choices target saved} : p.body[q]? = some (.jump t) → free q →
    q ∉ entered → Approach p free offset t slots (q :: entered) choices target saved →
    Approach p free offset q slots entered choices target saved
  | first {q slots entered first second choices target saved} :
    p.body[q]? = some (.split first second) → free q → q ∉ entered →
    Approach p free offset first slots (q :: entered) choices target saved →
    Approach p free offset q slots entered (false :: choices) target saved
  | second {q slots entered first second choices target saved} :
    p.body[q]? = some (.split first second) → free q → q ∉ entered →
    Approach p free offset second slots (q :: entered) choices target saved →
    Approach p free offset q slots entered (true :: choices) target saved
  | save {q slots entered slot choices target saved} : p.body[q]? = some (.save slot) → free q →
    q ∉ entered →
    Approach p free offset (q + 1) (slots.setIfInBounds slot (some offset)) (q :: entered) choices
      target saved →
    Approach p free offset q slots entered choices target saved

/-- Threads that come to wait behind a thread at `q`, with the choices that lead to them: each of
them comes by the way of the highest priority to its instruction, and they stand in the order of
their choices. -/
structure Arrivals (p : Program) (free : Nat → Prop) (offset q : Nat) (slots : Slots)
    (entered : List Nat) (added : List (List Bool × Thread)) : Prop where
  ordered : added.Pairwise (·.1 < ·.1)
  approach : ∀ r ∈ added, p.Approach free offset q slots entered r.1 r.2.position r.2.slots
  least : ∀ r ∈ added, ∀ choices saved,
    p.Approach free offset q slots entered choices r.2.position saved →
      r.1 < choices ∨ (choices, saved) = (r.1, r.2.slots)

end Program

end Lockstep
