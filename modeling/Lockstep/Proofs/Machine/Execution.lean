import Lockstep.Proofs.Machine.Admission
import Lockstep.Proofs.Machine.Saving

/-!
# What a run executes

An instruction is executed when a thread is admitted to it, and what it does to the slots is done to
those of this thread. So what a run executes is what it admits at its stages, together with the
threads that are admitted. All of them have as many slots as the program counts, and unless one of
the greatest words is saved to, that is enough for every save.

* `Scheduler.executes`: the threads that a walk admits, each at the instruction that it executes.
* `Execution`, `Program.executions`: what a run executes; `Program.map_executions`: this is what it
  admits.
* `Program.size_slots_of_mem_executions`: the slots of the threads.
* `Program.Keeps`: a save has its effect; `Program.keeps_of_lt_slotCount`: when it has.
* `Program.slotCount_keeps_saves`: the number of slots, and what it is good for.
-/

namespace Lockstep

namespace Scheduler

/-! ### The threads that a walk admits -/

/-- The threads that the walk of a stack admits, in order, each at the instruction that it comes to.
-/
def executes (p : Program) (offset : Nat) (s : Scheduler p.size) (stack : List Thread) :
    List Thread :=
  match stack with
  | [] => []
  | thread :: rest =>
    if h : thread.position < p.size then
      if hm : s.isMarked ⟨thread.position, h⟩ offset then executes p offset s rest
      else
        thread :: executes p offset (s.enter ⟨thread.position, h⟩ offset)
          ((p.body[thread.position].follow thread offset).getD [] ++ rest)
    else executes p offset s rest
  termination_by 2 * s.unmarked offset + stack.length
  decreasing_by
    · simp
    · have henter := unmarked_enter (Bool.not_eq_true _ ▸ hm)
      have hlen : ((p.body[thread.position].follow thread offset).getD []).length ≤ 2 := by
        cases hf : p.body[thread.position].follow thread offset with
        | none => simp
        | some next => exact Instruction.length_follow_le hf
      simp only [List.length_append, List.length_cons]
      omega
    · simp

section Executes

variable {p : Program} {offset n : Nat} {s : Scheduler p.size} {thread t : Thread}
  {stack rest : List Thread}

@[simp] theorem executes_nil : s.executes p offset [] = [] := by rw [executes]

theorem executes_dead (h : p.size ≤ thread.position) :
    s.executes p offset (thread :: rest) = s.executes p offset rest := by
  rw [executes, dif_neg (Nat.not_lt.2 h)]

theorem executes_marked (h : s.Marked offset thread.position) :
    s.executes p offset (thread :: rest) = s.executes p offset rest := by
  rw [executes, dif_pos h.1, dif_pos h.2]

theorem executes_enter (h : thread.position < p.size)
    (hm : s.isMarked ⟨thread.position, h⟩ offset = false) :
    s.executes p offset (thread :: rest) =
      thread :: (s.enter ⟨thread.position, h⟩ offset).executes p offset
        ((p.body[thread.position].follow thread offset).getD [] ++ rest) := by
  rw [executes, dif_pos h, dif_neg (by simp [hm])]

/-- What is executed is what is admitted. -/
theorem map_position_executes (s : Scheduler p.size) (offset : Nat) (stack : List Thread) :
    (s.executes p offset stack).map Thread.position =
      (s.admits p offset stack).map Fin.val := by
  induction s, stack using admitsInduction offset with
  | nil s => simp
  | dead s thread rest hd ih => rwa [executes_dead hd, admits_dead hd]
  | marked s thread rest hm ih => rwa [executes_marked hm, admits_marked hm]
  | enter s thread rest h hm ih =>
    rw [executes_enter h hm, admits_enter h hm, List.map_cons, List.map_cons, ih]

/-- All threads that a walk admits have as many slots as those on its stack. -/
theorem size_slots_of_mem_executes (h : ∀ t ∈ stack, t.slots.size = n)
    (ht : t ∈ s.executes p offset stack) : t.slots.size = n := by
  induction s, stack using admitsInduction offset with
  | nil s => simp at ht
  | dead s thread rest hd ih =>
    rw [executes_dead hd] at ht
    exact ih (List.forall_mem_cons.1 h).2 ht
  | marked s thread rest hm ih =>
    rw [executes_marked hm] at ht
    exact ih (List.forall_mem_cons.1 h).2 ht
  | enter s thread rest hlt hm ih =>
    obtain ⟨hthread, hrest⟩ := List.forall_mem_cons.1 h
    rw [executes_enter hlt hm, List.mem_cons] at ht
    rcases ht with rfl | ht
    · exact hthread
    · refine ih (List.forall_mem_append.2 ⟨?_, hrest⟩) ht
      cases hf : p.body[thread.position].follow thread offset with
      | none => simp
      | some next => exact fun t ht => (size_slots_of_mem_follow hf ht).trans hthread

end Executes

end Scheduler

/-! ### The executions of a run -/

/-- An instruction is executed: the thread that has come to it, and the offset where it has. -/
structure Execution where
  offset : Nat
  thread : Thread
  deriving DecidableEq, Repr

namespace Program

variable {p : Program}

/-- What is executed from the walk of a stack at `offset` on, in order; `cells` are the cells from
there on. -/
def executions (p : Program) : List Cell → Nat → Scheduler p.size → List Thread → List Execution
  | [], offset, s, stack => (s.executes p offset stack).map (⟨offset, ·⟩)
  | cell :: rest, offset, s, stack =>
    (s.executes p offset stack).map (⟨offset, ·⟩) ++
      if s.reached offset stack = [] then []
      else p.executions rest (offset + cell.width) (s.after offset stack)
        (p.advance cell.char ((s.reached offset stack).takeWhile (!p.isAccepting ·)))

/-- What is executed in a run with a scheduler that earlier runs may have used. -/
def executionsFrom (p : Program) (s : Scheduler p.size) (cells : List Cell) (start : Nat) :
    List Execution :=
  p.executions cells start s.start [⟨0, Array.replicate p.slotCount none⟩]

/-- The instructions that are executed are those admitted at the stages of the run, in order. -/
theorem map_executions (cells : List Cell) (offset : Nat) (s : Scheduler p.size)
    (stack : List Thread) :
    (p.executions cells offset s stack).map (fun e => (e.offset, e.thread.position)) =
      (p.stages cells offset s stack).flatMap fun stage =>
        stage.admitted.map fun position => (stage.offset, position.val) := by
  have hwalk (offset : Nat) (s : Scheduler p.size) (stack : List Thread) :
      ((s.executes p offset stack).map (Execution.mk offset)).map
        (fun e => (e.offset, e.thread.position)) =
      (s.admits p offset stack).map fun position => (offset, position.val) := by
    have h := congrArg (List.map (offset, ·)) (s.map_position_executes offset stack)
    rw [List.map_map, List.map_map] at h
    rw [List.map_map]
    exact h
  -- Both lists grow by one walk for each cell, and end with the same one.
  induction cells generalizing offset s stack with
  | nil => rw [executions, stages, hwalk, List.flatMap_singleton]
  | cons cell rest ih =>
    rw [executions, stages, List.map_append, hwalk, List.flatMap_cons]
    split
    · rfl
    · rw [ih]

/-- The work of a run is the number of instructions that it executes. -/
theorem length_executionsFrom (s : Scheduler p.size) {cells : List Cell} (start : Nat)
    (hc : ∀ cell ∈ cells, 0 < cell.width) :
    (p.executionsFrom s cells start).length = (p.runFrom s cells start).1.work := by
  obtain ⟨-, -, hwork, -⟩ := p.runFrom_eq_stages s cells start hc
  have hmap := congrArg List.length (map_executions cells start s.start
    [⟨0, Array.replicate p.slotCount none⟩])
  rw [List.length_map, List.length_flatMap] at hmap
  simp only [List.length_map] at hmap
  rw [hwork, executionsFrom, hmap, stagesFrom]

/-- All that is executed is executed by threads with as many slots as those of the first walk. -/
theorem size_slots_of_mem_executions {cells : List Cell} {offset n : Nat} {s : Scheduler p.size}
    {stack : List Thread} (hslots : ∀ t ∈ stack, t.slots.size = n) {e : Execution}
    (he : e ∈ p.executions cells offset s stack) : e.thread.slots.size = n := by
  induction cells generalizing offset s stack with
  | nil =>
    obtain ⟨t, ht, rfl⟩ := List.mem_map.1 he
    exact Scheduler.size_slots_of_mem_executes hslots ht
  | cons cell rest ih =>
    rw [executions, List.mem_append] at he
    rcases he with he | he
    · obtain ⟨t, ht, rfl⟩ := List.mem_map.1 he
      exact Scheduler.size_slots_of_mem_executes hslots ht
    · split at he
      · cases he
      · -- The next walk is that of the threads that consumed the cell.
        have hreached : ∀ t ∈ s.reached offset stack, t.slots.size = n := fun _ =>
          Scheduler.size_slots_of_mem_reached hslots
        exact ih (fun _ => size_slots_of_mem_advance hreached) he

/-! ### What is saved is kept -/

/-- `p.Keeps e slot` says that the thread of an execution that saves to `slot` goes on behind the
instruction with its offset in that slot, and with the other slots as they were. -/
def Keeps (p : Program) (e : Execution) (slot : Nat) : Prop :=
  ∃ i slots, p.body[e.thread.position]? = some i ∧
    i.follow e.thread e.offset = some [⟨e.thread.position + 1, slots⟩] ∧
    slots.size = p.slotCount ∧ slots[slot]? = some (some e.offset) ∧
    ∀ other, other ≠ slot → slots[other]? = e.thread.slots[other]?

/-- A save is kept if there is a slot for it. -/
theorem keeps_of_lt_slotCount {s : Scheduler p.size} {cells : List Cell} {start slot : Nat}
    {e : Execution} (he : e ∈ p.executionsFrom s cells start)
    (hslot : p.body[e.thread.position]? = some (.save slot)) (hlt : slot < p.slotCount) :
    p.Keeps e slot := by
  have hsize : e.thread.slots.size = p.slotCount :=
    size_slots_of_mem_executions (by simp) he
  refine ⟨_, _, hslot, rfl, Array.size_setIfInBounds.trans hsize, ?_, fun other hne => ?_⟩
  · exact Array.getElem?_setIfInBounds_self_of_lt (hsize ▸ hlt)
  · exact Array.getElem?_setIfInBounds_ne hne.symm

/-- **Slots for all that is saved.** The number of slots is even and less than the greatest word,
and counting in words comes to the same number. If neither of the two greatest words is saved to,
which is so whenever rows of slots can be allocated, it is the least even number above every slot
that is saved to, and every save that is executed is kept, in all runs. It is zero if nothing is
saved, and the word before the greatest if one of the two greatest is saved to. More instructions
need no fewer slots, and the same instructions in another order need as many. -/
theorem slotCount_keeps_saves (p : Program) :
    (2 ∣ p.slotCount ∧ p.slotCount < maxWord ∧
      ((∀ slot, .save slot ∈ p.body → slot ≤ maxWord) → p.slotWord.toNat = p.slotCount)) ∧
    (p.Allocatable → ∀ slot, .save slot ∈ p.body → slot ≤ maxWord - 2) ∧
    ((∀ slot, .save slot ∈ p.body → slot ≤ maxWord - 2) →
      IsLeast {n | 2 ∣ n ∧ ∀ slot, .save slot ∈ p.body → slot < n} p.slotCount ∧
      ∀ (s : Scheduler p.size) (t : Text) (start : Nat),
        let executions := p.executionsFrom s (t.cellsFrom start) start
        executions.length = (p.runFrom s (t.cellsFrom start) start).1.work ∧
        ∀ e ∈ executions, ∀ slot, p.body[e.thread.position]? = some (.save slot) →
          p.Keeps e slot) ∧
    ((∀ slot, .save slot ∉ p.body) → p.slotCount = 0) ∧
    (∀ slot, .save slot ∈ p.body → maxWord - 1 ≤ slot → p.slotCount = maxWord - 1) ∧
    (∀ q : Program, (∀ i ∈ p.body, i ∈ q.body) → p.slotCount ≤ q.slotCount) ∧
    ∀ q : Program, p.body.Perm q.body → p.slotCount = q.slotCount := by
  refine ⟨⟨p.two_dvd_slotCount, p.slotCount_lt_maxWord, toNat_slotWord⟩,
    fun h slot => slot_le_of_allocatable h, fun h => ⟨isLeast_slotCount h, fun s t start => ?_⟩,
    fun h => ?_, fun slot hslot hle => slotCount_eq_of_save hle hslot, fun q => slotCount_mono,
    fun q => slotCount_eq_of_perm⟩
  · refine ⟨length_executionsFrom s start fun _ => Text.width_pos_of_mem_cellsFrom,
      fun e he slot hslot => ?_⟩
    have hmem : .save slot ∈ p.body := Array.mem_of_getElem? hslot
    exact keeps_of_lt_slotCount he hslot (lt_slotCount (h slot hmem) hmem)
  · exact Nat.le_zero.1 (slotCount_le (Nat.dvd_zero 2) fun slot hslot => absurd hslot (h slot))

/-- Below the greatest slot that is saved to, all slots are counted, and behind it there is none, as
it is odd. If one of the greatest words is saved to as well, the others no longer matter. -/
theorem slotCount_keeps_saves_odd_slot :
    let p : Program := .ofBody #[.save 5, .char 'a', .save 2, .accept]
    let q : Program := .ofBody #[.char 'a', .save 2, .save 5, .accept]
    let r : Program := .ofBody #[.save 5, .char 'a', .save 2, .accept, .save (maxWord - 1)]
    let e : Execution := ⟨1, ⟨2, #[none, none, none, none, none, some 0]⟩⟩
    p.Allocatable ∧ p.slotCount = 6 ∧ p.slotWord.toNat = 6 ∧
      IsLeast {n | 2 ∣ n ∧ ∀ slot, .save slot ∈ p.body → slot < n} 6 ∧
      e ∈ p.executionsFrom (.initial p.size) ((Text.wide "a").cellsFrom 0) 0 ∧ p.Keeps e 2 ∧
      q.slotCount = 6 ∧ r.slotCount = maxWord - 1 ∧ p.slotCount ≤ r.slotCount ∧
      (ofBody #[.accept]).slotCount = 0 := by
  intro p q r e
  obtain ⟨⟨-, -, hwords⟩, hsmall, hleast, -, -, hmono, hperm⟩ := slotCount_keeps_saves p
  have hcount : p.slotCount = 6 := by decide
  have halloc : p.Allocatable := by decide
  have hslots := hsmall halloc
  have hmem : e ∈ p.executionsFrom (.initial p.size) ((Text.wide "a").cellsFrom 0) 0 := by
    decide +kernel
  obtain ⟨hleast, hkeeps⟩ := hleast hslots
  have hword : p.slotWord.toNat = p.slotCount :=
    hwords fun slot hslot => (hslots slot hslot).trans (Nat.sub_le _ _)
  have hq : p.body.Perm q.body := Array.perm_iff_toList_perm.2 (by decide)
  have hr : ∀ i ∈ p.body, i ∈ r.body := by simp +contextual [p, r]
  have hnone : (ofBody #[.accept]).slotCount = 0 :=
    (slotCount_keeps_saves _).2.2.2.1 (by simp)
  have htop : r.slotCount = maxWord - 1 :=
    (slotCount_keeps_saves r).2.2.2.2.1 (maxWord - 1) (by simp [r]) le_rfl
  rw [hcount] at hleast hword
  exact ⟨halloc, hcount, hword, hleast, hmem, (hkeeps (.initial p.size) _ 0).2 e hmem 2 rfl,
    (hperm q hq).symm.trans hcount, htop, hmono r hr, hnone⟩

end Program

end Lockstep
