import Lockstep.Machine.Run
import Lockstep.Proofs.Machine.Walk
import Mathlib.Algebra.GroupWithZero.Nat
import Mathlib.Algebra.Order.BigOperators.Group.List
import Mathlib.Algebra.Order.Group.Nat
import Mathlib.Data.Fintype.Card

/-!
# What a run admits

A run goes through a row of stages, one for each offset that it comes to. At every stage a walk
admits some instructions, each of them once, and leaves a row of threads that wait at some of these.
All that a run does to its scheduler is to admit the instructions of its stages, so its counts can
be read off them, and none of them exceeds the size of the program.

* `Scheduler.enterAll`: instructions are admitted one after the other, and what this does to the
  counts.
* `Scheduler.admits`: the instructions that a walk admits, in order; `Scheduler.after_eq_enterAll`:
  a walk does nothing else to the scheduler.
* `Scheduler.nodup_admits`, `Scheduler.sublist_admits`: none is admitted twice, and the threads that
  wait stand at some of them.
* `Stage`, `Program.stages`: the stages of a run; `Program.runFrom_eq_stages`: its result in terms
  of them.
* `Program.stages_bounded`: the bounds on a run.
-/

namespace Lockstep

namespace Scheduler

/-! ### Admitting many instructions -/

section EnterAll

variable {size : Nat} {s : Scheduler size} {offset offset' : Nat} {position : Fin size}
  {positions : List (Fin size)}

/-- The scheduler after instructions have been admitted at `offset`, one after the other. -/
def enterAll (s : Scheduler size) (offset : Nat) (positions : List (Fin size)) : Scheduler size :=
  positions.foldl (fun s position => s.enter position offset) s

@[simp] theorem enterAll_nil : s.enterAll offset [] = s := rfl

@[simp] theorem enterAll_cons :
    s.enterAll offset (position :: positions) =
      (s.enter position offset).enterAll offset positions := rfl

/-- How many instructions have been counted for `offset`. -/
def count (s : Scheduler size) (offset : Nat) : Nat := if s.offset = offset then s.admitted else 0

theorem count_start : s.start.count offset = 0 := by
  exact ite_self _

theorem count_enter : (s.enter position offset).count offset = s.count offset + 1 := by
  simp only [count, enter, if_true]
  split
  · rfl
  · rfl

theorem peak_enter : (s.enter position offset).peak = max s.peak (s.count offset + 1) := by
  simp only [count, enter]
  split
  · rfl
  · rfl

/-- The counter begins anew when an instruction is admitted at another offset. -/
theorem count_enter_of_ne (hne : offset' ≠ offset) :
    (s.enter position offset).count offset' = 0 := if_neg fun h => hne h.symm

theorem count_enterAll_of_ne (h : s.count offset' = 0) (hne : offset' ≠ offset) :
    (s.enterAll offset positions).count offset' = 0 := by
  induction positions generalizing s with
  | nil => exact h
  | cons position positions ih => exact ih (count_enter_of_ne hne)

theorem work_enterAll : (s.enterAll offset positions).work = s.work + positions.length := by
  induction positions generalizing s with
  | nil => rfl
  | cons position positions ih =>
    have henter : (s.enter position offset).work = s.work + 1 := rfl
    rw [enterAll_cons, ih, henter, List.length_cons]
    omega

theorem peak_enterAll (h : s.count offset ≤ s.peak) :
    (s.enterAll offset positions).peak = max s.peak (s.count offset + positions.length) := by
  induction positions generalizing s with
  | nil => exact (Nat.max_eq_left h).symm
  | cons position positions ih =>
    have hcount : (s.enter position offset).count offset = s.count offset + 1 := count_enter
    have hpeak : (s.enter position offset).peak = max s.peak (s.count offset + 1) := peak_enter
    rw [enterAll_cons, ih (by omega), hcount, hpeak, List.length_cons]
    omega

end EnterAll

/-! ### The instructions that a walk admits -/

/-- The instructions that the walk of a stack admits, in order. -/
def admits (p : Program) (offset : Nat) (s : Scheduler p.size) (stack : List Thread) :
    List (Fin p.size) :=
  match stack with
  | [] => []
  | thread :: rest =>
    if h : thread.position < p.size then
      if hm : s.isMarked ⟨thread.position, h⟩ offset then admits p offset s rest
      else
        ⟨thread.position, h⟩ :: admits p offset (s.enter ⟨thread.position, h⟩ offset)
          ((p.body[thread.position].follow thread offset).getD [] ++ rest)
    else admits p offset s rest
  termination_by 2 * s.unmarked offset + stack.length
  decreasing_by
    · simp
    · have henter := unmarked_enter (Bool.not_eq_true _ ▸ hm)
      have hlen : ((p.body[thread.position].follow thread offset).getD []).length ≤ 2 := by
        cases hf : p.body[thread.position].follow thread offset with
        | none => simp
        | some next => exact Instruction.length_follow_le hf
      simp only [List.length_append, List.length_cons]
      omega
    · simp

section Admits

variable {p : Program} {offset : Nat} {s : Scheduler p.size} {thread : Thread}
  {stack rest : List Thread}

@[simp] theorem admits_nil : s.admits p offset [] = [] := by rw [admits]

theorem admits_dead (h : p.size ≤ thread.position) :
    s.admits p offset (thread :: rest) = s.admits p offset rest := by
  rw [admits, dif_neg (Nat.not_lt.2 h)]

theorem admits_marked (h : s.Marked offset thread.position) :
    s.admits p offset (thread :: rest) = s.admits p offset rest := by
  rw [admits, dif_pos h.1, dif_pos h.2]

section Enter

variable (h : thread.position < p.size) (hm : s.isMarked ⟨thread.position, h⟩ offset = false)
include hm

theorem admits_enter :
    s.admits p offset (thread :: rest) = ⟨thread.position, h⟩ ::
      (s.enter ⟨thread.position, h⟩ offset).admits p offset
        ((p.body[thread.position].follow thread offset).getD [] ++ rest) := by
  rw [admits, dif_pos h, dif_neg (by simp [hm])]

/-- An instruction that is admitted is followed by those behind it, if there are any. -/
theorem after_enter :
    s.after offset (thread :: rest) = (s.enter ⟨thread.position, h⟩ offset).after offset
      ((p.body[thread.position].follow thread offset).getD [] ++ rest) := by
  cases hf : p.body[thread.position].follow thread offset with
  | none => rw [after_wait h hm hf, Option.getD_none, List.nil_append]
  | some next => rw [after_follow h hm hf, ← after_append, Option.getD_some]

end Enter

/-- The induction that follows the instructions that a walk admits. -/
theorem admitsInduction (offset : Nat) {motive : Scheduler p.size → List Thread → Prop}
    (nil : ∀ s, motive s [])
    (dead : ∀ s thread rest, p.size ≤ thread.position → motive s rest → motive s (thread :: rest))
    (marked : ∀ s thread rest, s.Marked offset thread.position → motive s rest →
      motive s (thread :: rest))
    (enter : ∀ s thread rest (h : thread.position < p.size),
      s.isMarked ⟨thread.position, h⟩ offset = false →
      motive (s.enter ⟨thread.position, h⟩ offset)
        ((p.body[thread.position].follow thread offset).getD [] ++ rest) →
      motive s (thread :: rest))
    (s : Scheduler p.size) (stack : List Thread) : motive s stack := by
  induction s, stack using admits.induct p offset with
  | case1 s => exact nil s
  | case2 s thread rest h hm ih => exact marked s thread rest ⟨h, hm⟩ ih
  | case3 s thread rest h hm ih => exact enter s thread rest h (Bool.not_eq_true _ ▸ hm) ih
  | case4 s thread rest h ih => exact dead s thread rest (Nat.not_lt.1 h) ih

/-- All that a walk does to the scheduler is to admit instructions. -/
theorem after_eq_enterAll (s : Scheduler p.size) (offset : Nat) (stack : List Thread) :
    s.after offset stack = s.enterAll offset (s.admits p offset stack) := by
  induction s, stack using admitsInduction offset with
  | nil s => simp
  | dead s thread rest hd ih => rw [after_dead hd, admits_dead hd, ih]
  | marked s thread rest hm ih => rw [after_marked hm, admits_marked hm, ih]
  | enter s thread rest h hm ih => rw [after_enter h hm, admits_enter h hm, ih, enterAll_cons]

/-- A walk admits only instructions that have not been admitted before, and none of them twice. -/
theorem nodup_admits (s : Scheduler p.size) (offset : Nat) (stack : List Thread) :
    (s.admits p offset stack).Nodup ∧
      ∀ position ∈ s.admits p offset stack, ¬ s.Marked offset position := by
  induction s, stack using admitsInduction offset with
  | nil s => simp
  | dead s thread rest hd ih => rwa [admits_dead hd]
  | marked s thread rest hm ih => rwa [admits_marked hm]
  | enter s thread rest h hm ih =>
    obtain ⟨hnodup, hfresh⟩ := ih
    -- What is admitted behind this instruction finds it marked.
    have hne : ∀ position ∈ (s.enter ⟨thread.position, h⟩ offset).admits p offset
        ((p.body[thread.position].follow thread offset).getD [] ++ rest),
        position.val ≠ thread.position ∧ ¬ s.Marked offset position := fun position hmem =>
      not_or.1 fun hor => hfresh position hmem (marked_enter.2 hor)
    rw [admits_enter h hm, List.nodup_cons, List.forall_mem_cons]
    refine ⟨⟨fun hmem => (hne _ hmem).1 rfl, hnodup⟩, isMarked_eq_false_iff.1 hm, ?_⟩
    exact fun position hmem => (hne position hmem).2

theorem length_admits_le : (s.admits p offset stack).length ≤ p.size := by
  simpa using (s.nodup_admits offset stack).1.length_le_card

/-- The threads that wait after a walk stand at instructions that it has admitted, in the same
order. -/
theorem sublist_admits (s : Scheduler p.size) (offset : Nat) (stack : List Thread) :
    ((s.reached offset stack).map Thread.position).Sublist
      ((s.admits p offset stack).map Fin.val) := by
  induction s, stack using admitsInduction offset with
  | nil s => simp
  | dead s thread rest hd ih => rwa [reached_dead hd, admits_dead hd]
  | marked s thread rest hm ih => rwa [reached_marked hm, admits_marked hm]
  | enter s thread rest h hm ih =>
    rw [admits_enter h hm, List.map_cons]
    cases hf : p.body[thread.position].follow thread offset with
    | none =>
      rw [hf, Option.getD_none, List.nil_append] at ih
      rw [reached_wait h hm hf, List.map_cons]
      exact ih.cons_cons _
    | some next =>
      rw [hf, Option.getD_some] at ih
      rw [reached_follow h hm hf, ← reached_append]
      exact ih.cons _

/-- Following an instruction changes no more than the content of slots. -/
theorem size_slots_of_mem_follow {i : Instruction} {next : List Thread} {t : Thread}
    (hf : i.follow thread offset = some next) (ht : t ∈ next) :
    t.slots.size = thread.slots.size := by
  cases i <;> cases hf <;> grind

/-- A walk schedules threads with as many slots as it was given. -/
theorem size_slots_of_mem_reached {n : Nat} {t : Thread} (h : ∀ t ∈ stack, t.slots.size = n)
    (ht : t ∈ s.reached offset stack) : t.slots.size = n := by
  induction s, stack using walkRecursion offset with
  | nil s => simp at ht
  | dead s thread rest hd ih =>
    rw [reached_dead hd] at ht
    exact ih (List.forall_mem_cons.1 h).2 ht
  | marked s thread rest hm ih =>
    rw [reached_marked hm] at ht
    exact ih (List.forall_mem_cons.1 h).2 ht
  | follow s thread rest next hlt hm hf ih₁ ih₂ =>
    obtain ⟨hthread, hrest⟩ := List.forall_mem_cons.1 h
    rw [reached_follow hlt hm hf, List.mem_append] at ht
    rcases ht with ht | ht
    · exact ih₁ (fun t ht => (size_slots_of_mem_follow hf ht).trans hthread) ht
    · exact ih₂ hrest ht
  | wait s thread rest hlt hm hf ih =>
    obtain ⟨hthread, hrest⟩ := List.forall_mem_cons.1 h
    rw [reached_wait hlt hm hf, List.mem_cons] at ht
    rcases ht with rfl | ht
    · exact hthread
    · exact ih hrest ht

end Admits

end Scheduler

/-! ### The stages of a run -/

/-- What a run does at one offset: the instructions that it admits, in order, and the threads that
then wait, in order of priority. -/
structure Stage (p : Program) where
  offset : Nat
  admitted : List (Fin p.size)
  waiting : List Thread

namespace Program

variable {p : Program}

/-- The stages from the walk of a stack at `offset` on; `cells` are the cells from there on. -/
def stages (p : Program) : List Cell → Nat → Scheduler p.size → List Thread → List (Stage p)
  | [], offset, s, stack => [⟨offset, s.admits p offset stack, s.reached offset stack⟩]
  | cell :: rest, offset, s, stack =>
    ⟨offset, s.admits p offset stack, s.reached offset stack⟩ ::
      if s.reached offset stack = [] then []
      else p.stages rest (offset + cell.width) (s.after offset stack)
        (p.advance cell.char ((s.reached offset stack).takeWhile (!p.isAccepting ·)))

theorem stages_ne_nil {cells : List Cell} {offset : Nat} {s : Scheduler p.size}
    {stack : List Thread} : p.stages cells offset s stack ≠ [] := by
  cases cells <;> simp [stages]

/-- The stages of a run with a scheduler that earlier runs may have used. -/
def stagesFrom (p : Program) (s : Scheduler p.size) (cells : List Cell) (start : Nat) :
    List (Stage p) :=
  p.stages cells start s.start [⟨0, Array.replicate p.slotCount none⟩]

/-- The visits of stages. -/
def visitsOf (p : Program) (stages : List (Stage p)) : List Visit :=
  (stages.filter (!·.waiting.isEmpty)).map fun stage => p.visit stage.offset stage.waiting

/-- The scheduler after stages. -/
def schedulerAfter (s : Scheduler p.size) (stages : List (Stage p)) : Scheduler p.size :=
  stages.foldl (fun s stage => s.enterAll stage.offset stage.admitted) s

section Stages

variable {cell : Cell} {cells rest : List Cell} {offset : Nat} {s : Scheduler p.size}
  {stack : List Thread}

/-- When no thread waits, there are no more stages. -/
theorem stages_of_reached_eq_nil (h : s.reached offset stack = []) :
    p.stages cells offset s stack = [⟨offset, s.admits p offset stack, []⟩] := by
  cases cells with
  | nil => rw [stages, h]
  | cons cell rest => rw [stages, h, if_pos rfl]

theorem stages_cons (h : s.reached offset stack ≠ []) :
    p.stages (cell :: rest) offset s stack =
      ⟨offset, s.admits p offset stack, s.reached offset stack⟩ ::
        p.stages rest (offset + cell.width) (s.after offset stack)
          (p.advance cell.char ((s.reached offset stack).takeWhile (!p.isAccepting ·))) := by
  rw [stages, if_neg h]

end Stages

/-- Moving on after a walk goes through the stages from that walk on. -/
theorem moveOn_eq_stages (cells : List Cell) (offset : Nat) (s : Scheduler p.size)
    (stack : List Thread) (found : Option Found) (visits : Array Visit) :
    let result := p.moveOn cells offset (s.after offset stack) (s.reached offset stack) found visits
    let stages := p.stages cells offset s stack
    result.1 = schedulerAfter s stages ∧
      result.2.2.toList = visits.toList ++ p.visitsOf stages := by
  induction cells generalizing offset s stack found visits with
  | nil =>
    by_cases ht : s.reached offset stack = []
    · simp [stages_of_reached_eq_nil, schedulerAfter, visitsOf, ht, Scheduler.after_eq_enterAll]
    · simp [stages, schedulerAfter, visitsOf, ht, moveOn_end ht, Scheduler.after_eq_enterAll]
  | cons cell rest ih =>
    by_cases ht : s.reached offset stack = []
    · simp [stages_of_reached_eq_nil, schedulerAfter, visitsOf, ht, Scheduler.after_eq_enterAll]
    · rw [moveOn_cons ht, Scheduler.walk_eq_after, stages_cons ht]
      simp only [Array.empty_append]
      obtain ⟨hscheduler, hvisits⟩ := ih (offset + cell.width) (s.after offset stack)
        (p.advance cell.char ((s.reached offset stack).takeWhile (!p.isAccepting ·)))
        ((p.visit offset (s.reached offset stack)).found?.or found)
        (visits.push (p.visit offset (s.reached offset stack)))
      refine ⟨hscheduler.trans ?_, hvisits.trans ?_⟩
      · rw [schedulerAfter, schedulerAfter, List.foldl_cons, ← Scheduler.after_eq_enterAll]
      · simp [visitsOf, ht]

/-- Consuming a character leaves the slots as they are. -/
theorem size_slots_of_mem_advance {c : Char} {n : Nat} {t : Thread} {threads : List Thread}
    (h : ∀ t ∈ threads, t.slots.size = n)
    (ht : t ∈ p.advance c (threads.takeWhile (!p.isAccepting ·))) : t.slots.size = n := by
  obtain ⟨t', ht', rfl⟩ := List.mem_map.1 ht
  exact h t' ((List.takeWhile_sublist _).mem (List.mem_filter.1 ht').1)

/-- Every stage of a run is a walk, of threads with as many slots as those of the first. -/
theorem exists_walk_of_mem_stages {cells : List Cell} {offset n : Nat} {s : Scheduler p.size}
    {stack : List Thread} (hslots : ∀ t ∈ stack, t.slots.size = n) {stage : Stage p}
    (h : stage ∈ p.stages cells offset s stack) :
    ∃ s' stack', stage.admitted = Scheduler.admits p stage.offset s' stack' ∧
      stage.waiting = s'.reached stage.offset stack' ∧ ∀ t ∈ stack', t.slots.size = n := by
  induction cells generalizing offset s stack with
  | nil =>
    obtain rfl := List.mem_singleton.1 h
    exact ⟨s, stack, rfl, rfl, hslots⟩
  | cons cell rest ih =>
    rw [stages, List.mem_cons] at h
    rcases h with rfl | h
    · exact ⟨s, stack, rfl, rfl, hslots⟩
    · split at h
      · cases h
      · have hreached : ∀ t ∈ s.reached offset stack, t.slots.size = n := fun _ =>
          Scheduler.size_slots_of_mem_reached hslots
        exact ih (fun _ => size_slots_of_mem_advance hreached) h

/-- The stages of a run come one after the other in the text. -/
theorem pairwise_stages {cells : List Cell} (hc : ∀ cell ∈ cells, 0 < cell.width) (offset : Nat)
    (s : Scheduler p.size) (stack : List Thread) :
    (∀ stage ∈ p.stages cells offset s stack, offset ≤ stage.offset) ∧
      (p.stages cells offset s stack).Pairwise (·.offset < ·.offset) := by
  induction cells generalizing offset s stack with
  | nil => simp [stages]
  | cons cell rest ih =>
    obtain ⟨hwidth, hc⟩ := List.forall_mem_cons.1 hc
    rw [stages, List.forall_mem_cons, List.pairwise_cons]
    split
    · simp
    · obtain ⟨hle, hlt⟩ := ih hc (offset + cell.width) (s.after offset stack)
        (p.advance cell.char ((s.reached offset stack).takeWhile (!p.isAccepting ·)))
      refine ⟨⟨le_rfl, fun stage hstage => ?_⟩, fun stage hstage => ?_, hlt⟩
      · exact (Nat.le_add_right _ _).trans (hle stage hstage)
      · exact (Nat.lt_add_of_pos_right hwidth).trans_le (hle stage hstage)

/-- There is no more than one stage for each boundary of the text. -/
theorem length_stages_le (cells : List Cell) (offset : Nat) (s : Scheduler p.size)
    (stack : List Thread) : (p.stages cells offset s stack).length ≤ cells.length + 1 := by
  induction cells generalizing offset s stack with
  | nil => exact le_rfl
  | cons cell rest ih =>
    rw [stages, List.length_cons, List.length_cons]
    split
    · exact Nat.succ_le_succ (Nat.zero_le _)
    · exact Nat.succ_le_succ (ih _ _ _)

/-- The counts after stages whose offsets are new to the scheduler. -/
theorem counts_schedulerAfter {s : Scheduler p.size} {stages : List (Stage p)}
    (hlt : stages.Pairwise (·.offset < ·.offset))
    (hs : ∀ stage ∈ stages, s.count stage.offset = 0) :
    (schedulerAfter s stages).work = s.work + (stages.map (·.admitted.length)).sum ∧
      (schedulerAfter s stages).peak = (stages.map (·.admitted.length)).foldl max s.peak := by
  induction stages generalizing s with
  | nil => exact ⟨rfl, rfl⟩
  | cons stage stages ih =>
    obtain ⟨hstage, hlt⟩ := List.pairwise_cons.1 hlt
    obtain ⟨hcount, hs⟩ := List.forall_mem_cons.1 hs
    obtain ⟨hwork, hpeak⟩ := ih (s := s.enterAll stage.offset stage.admitted) hlt
      fun stage' hmem => Scheduler.count_enterAll_of_ne (hs stage' hmem) (hstage stage' hmem).ne'
    have hafter : schedulerAfter s (stage :: stages) =
        schedulerAfter (s.enterAll stage.offset stage.admitted) stages := rfl
    refine ⟨?_, ?_⟩
    · rw [hafter, hwork, Scheduler.work_enterAll, List.map_cons, List.sum_cons, Nat.add_assoc]
    · rw [hafter, hpeak, Scheduler.peak_enterAll (hcount ▸ Nat.zero_le _), hcount, Nat.zero_add]
      rfl

/-- The result of a run in terms of its stages. -/
theorem runFrom_eq_stages (p : Program) (s : Scheduler p.size) (cells : List Cell) (start : Nat)
    (hc : ∀ cell ∈ cells, 0 < cell.width) :
    let outcome := (p.runFrom s cells start).1
    let stages := p.stagesFrom s cells start
    (p.runFrom s cells start).2 = schedulerAfter s.start stages ∧
      outcome.visits.toList = p.visitsOf stages ∧
      outcome.work = (stages.map (·.admitted.length)).sum ∧
      (stages.map (·.admitted.length)).max? = some outcome.peak := by
  intro outcome stages
  obtain ⟨hscheduler, hvisits⟩ := p.moveOn_eq_stages cells start s.start
    [⟨0, Array.replicate p.slotCount none⟩] none #[]
  have hlt : stages.Pairwise (·.offset < ·.offset) := (pairwise_stages hc _ _ _).2
  obtain ⟨hwork, hpeak⟩ := counts_schedulerAfter (s := s.start) hlt
    fun stage _ => Scheduler.count_start
  refine ⟨hscheduler, hvisits, ?_, ?_⟩
  · calc outcome.work = (schedulerAfter s.start stages).work := congrArg Scheduler.work hscheduler
      _ = 0 + (stages.map (·.admitted.length)).sum := hwork
      _ = (stages.map (·.admitted.length)).sum := Nat.zero_add _
  · have houtcome : outcome.peak = (stages.map (·.admitted.length)).foldl max 0 :=
      (congrArg Scheduler.peak hscheduler).trans hpeak
    have hne : stages ≠ [] := stages_ne_nil
    obtain ⟨stage, rest, heq⟩ := List.exists_cons_of_ne_nil hne
    rw [houtcome, heq, List.map_cons, List.max?_cons', List.foldl_cons, Nat.zero_max]

/-- At a stage instructions are admitted once, and threads wait at some of them. -/
theorem of_mem_stagesFrom {s : Scheduler p.size} {cells : List Cell} {start : Nat} {stage : Stage p}
    (h : stage ∈ p.stagesFrom s cells start) :
    stage.admitted.Nodup ∧ stage.admitted.length ≤ p.size ∧
      stage.waiting.length ≤ p.size ∧ (stage.waiting.map Thread.position).Nodup ∧
      ∀ thread ∈ stage.waiting, thread.slots.size = p.slotCount ∧
        ∃ i, p.body[thread.position]? = some i ∧ (∀ target, i ≠ .jump target) ∧
          (∀ first second, i ≠ .split first second) ∧ ∀ slot, i ≠ .save slot := by
  obtain ⟨s', stack, hadmitted, hwaiting, hslots⟩ :=
    exists_walk_of_mem_stages (n := p.slotCount) (by simp) h
  have hnodup := (s'.nodup_admits stage.offset stack).1
  have hsub := s'.sublist_admits stage.offset stack
  have hlength : stage.admitted.length ≤ p.size := hadmitted ▸ Scheduler.length_admits_le
  rw [← hadmitted] at hnodup hsub
  rw [← hwaiting] at hsub
  refine ⟨hnodup, hlength, ?_, hsub.nodup (hnodup.map Fin.val_injective), fun thread ht => ?_⟩
  · simpa using hsub.length_le.trans (by simpa using hlength)
  · rw [hwaiting] at ht
    obtain ⟨i, hi, hn⟩ := Scheduler.waits_of_mem_reached ht
    refine ⟨Scheduler.size_slots_of_mem_reached hslots ht, i, hi, ?_, ?_, ?_⟩
    · rintro target rfl
      cases hn
    · rintro first second rfl
      cases hn
    · rintro slot rfl
      cases hn

/-- A program that is not empty has its first instruction admitted in every run. -/
theorem exists_admitted_stagesFrom (s : Scheduler p.size) (cells : List Cell) (start : Nat)
    (h : 0 < p.size) : ∃ stage ∈ p.stagesFrom s cells start, 0 < stage.admitted.length := by
  have hm : s.start.isMarked ⟨0, h⟩ start = false :=
    Scheduler.isMarked_eq_false_iff.2 Scheduler.not_marked_start
  have hadmits : 0 < (Scheduler.admits p start s.start
      [⟨0, Array.replicate p.slotCount none⟩]).length := by
    rw [Scheduler.admits_enter h hm]
    exact Nat.succ_pos _
  cases cells with
  | nil => exact ⟨_, List.mem_singleton_self _, hadmits⟩
  | cons cell rest => exact ⟨_, List.mem_cons_self, hadmits⟩

/-- A run of any program on any text, from any offset on, goes through stages at growing offsets. At
each of them an instruction is admitted at most once, and the threads that wait stand at different
instructions, none of which is followed, and have all their slots. So what is admitted at an
offset, the greatest number of it and the number of waiting threads are at most the size of the
program, and what is admitted in all is at most that for each boundary. -/
theorem stages_bounded (p : Program) (s : Scheduler p.size) (t : Text) (start : Nat) :
    let cells := t.cellsFrom start
    let outcome := (p.runFrom s cells start).1
    let stages := p.stagesFrom s cells start
    ((p.runFrom s cells start).2 = schedulerAfter s.start stages ∧
      outcome.visits.toList = p.visitsOf stages ∧
      outcome.work = (stages.map (·.admitted.length)).sum ∧
      (stages.map (·.admitted.length)).max? = some outcome.peak) ∧
    stages.length ≤ cells.length + 1 ∧ stages.Pairwise (·.offset < ·.offset) ∧
    (∀ stage ∈ stages,
      stage.admitted.Nodup ∧ stage.admitted.length ≤ p.size ∧
      stage.waiting.length ≤ p.size ∧ (stage.waiting.map Thread.position).Nodup ∧
      ∀ thread ∈ stage.waiting, thread.slots.size = p.slotCount ∧
        ∃ i, p.body[thread.position]? = some i ∧ (∀ target, i ≠ .jump target) ∧
          (∀ first second, i ≠ .split first second) ∧ ∀ slot, i ≠ .save slot) ∧
    outcome.peak ≤ p.size ∧ outcome.work ≤ p.size * (cells.length + 1) ∧
    (1 ≤ outcome.peak ↔ 0 < p.size) := by
  intro cells outcome stages
  have hc : ∀ cell ∈ cells, 0 < cell.width := fun cell => Text.width_pos_of_mem_cellsFrom
  obtain ⟨hscheduler, hvisits, hwork, hpeak⟩ := p.runFrom_eq_stages s cells start hc
  have hstage := fun stage (h : stage ∈ stages) => of_mem_stagesFrom h
  obtain ⟨hmem, hle⟩ := List.max?_eq_some_iff.1 hpeak
  obtain ⟨greatest, hgreatest, hlength⟩ := List.mem_map.1 hmem
  have hpeak_le : outcome.peak ≤ p.size := hlength ▸ (hstage greatest hgreatest).2.1
  have hlength_le : stages.length ≤ cells.length + 1 := length_stages_le _ _ _ _
  refine ⟨⟨hscheduler, hvisits, hwork, hpeak⟩, hlength_le, (pairwise_stages hc _ _ _).2, hstage,
    hpeak_le, ?_, fun h => h.trans hpeak_le, fun h => ?_⟩
  · have hsum := List.sum_le_card_nsmul (stages.map (·.admitted.length)) p.size fun n hn => by
      obtain ⟨stage, hmem, rfl⟩ := List.mem_map.1 hn
      exact (hstage stage hmem).2.1
    calc outcome.work = (stages.map (·.admitted.length)).sum := hwork
      _ ≤ stages.length * p.size := by simpa using hsum
      _ ≤ (cells.length + 1) * p.size := Nat.mul_le_mul_right _ hlength_le
      _ = p.size * (cells.length + 1) := Nat.mul_comm _ _
  · obtain ⟨stage, hmem, hpos⟩ := exists_admitted_stagesFrom s cells start h
    exact hpos.trans_le (hle _ (List.mem_map_of_mem hmem))

end Program

end Lockstep
