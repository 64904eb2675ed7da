import Lockstep.Proofs.Machine.DepthFirst
import Mathlib.Data.List.TakeWhile

/-!
# The result of a run

A run moves all threads at once and keeps only the first thread that comes to an instruction, while
the exploration follows one path after the other and shares nothing. Both find the same first match.

The walk is compared with the exploration of the same stack. When a thread is dropped at a marked
instruction, the mark was made by a thread ahead of it. Either that thread is known to find
something, and what comes behind does not matter; or the branches that start there have been tried
in vain, apart from those that lead back to the threads whose branches are still being tried.

* `Program.Exhausted`: nothing is found behind a set of positions, except through the given ones.
* `Scheduler.head?_reached`: the first match of the threads that a walk schedules.
* `Program.found_moveOn`, `Program.found_runFrom`: the match of a run is the first one explored.
* `Program.found_runFrom_iff_least_path`: the match of a run is that of the least accepting path.
-/

namespace Lockstep

namespace Program

variable {p : Program} {cells : List Cell} {offset : Nat} {tried tried' : Nat → Prop}
  {entered entered' : List Nat} {thread : Thread}

/-- The instruction at `q` leads to no match, unless through positions that have been tried: all
positions behind it have been tried or lie outside, or a thread that waits there finds nothing. -/
def DeadEnd (p : Program) (cells : List Cell) (offset : Nat) (tried : Nat → Prop) (q : Nat) :
    Prop :=
  ∀ i, p.body[q]? = some i →
    match i.next? q with
    | some next => ∀ z ∈ next, tried z ∨ p.size ≤ z
    | none => ∀ slots, p.explore cells offset ⟨q, slots⟩ [] = []

/-- The positions that have been tried are dead ends, unless they are among those that have been
entered. -/
def Exhausted (p : Program) (cells : List Cell) (offset : Nat) (tried : Nat → Prop)
    (entered : List Nat) : Prop :=
  ∀ q, tried q → q ∉ entered → p.DeadEnd cells offset tried q

theorem DeadEnd.mono {q : Nat} (h : p.DeadEnd cells offset tried q)
    (hsub : ∀ z, tried z → tried' z) : p.DeadEnd cells offset tried' q := by
  intro i hi
  have hq := h i hi
  cases hn : i.next? q with
  | none => rwa [hn] at hq
  | some next =>
    rw [hn] at hq
    exact fun z hz => (hq z hz).imp_left (hsub z)

/-- A position that is entered is tried, but need not be a dead end yet. -/
theorem Exhausted.enter {q : Nat} (h : p.Exhausted cells offset tried entered)
    (htried : ∀ z, tried' z ↔ z = q ∨ tried z) :
    p.Exhausted cells offset tried' (q :: entered) := by
  intro z hz hmem
  rw [List.mem_cons, not_or] at hmem
  exact (h z (((htried z).1 hz).resolve_left hmem.1) hmem.2).mono fun y hy =>
    (htried y).2 (Or.inr hy)

/-- A position is left when it has turned out to be a dead end. -/
theorem Exhausted.leave {q : Nat} (h : p.Exhausted cells offset tried (q :: entered))
    (hq : p.DeadEnd cells offset tried q) : p.Exhausted cells offset tried entered := by
  intro z hz hmem
  by_cases he : z = q
  · exact he ▸ hq
  · exact h z hz fun hz' => (List.mem_cons.1 hz').elim he hmem

/-- Nothing is found from positions that are exhausted. -/
theorem Exhausted.explore_eq_nil (h : p.Exhausted cells offset tried entered)
    (hsub : ∀ q ∈ entered, q ∈ entered')
    (ht : tried thread.position ∨ p.size ≤ thread.position) :
    p.explore cells offset thread entered' = [] := by
  induction cells, offset, thread, entered' using exploreInduction (p := p) with
  | dead cells offset thread passed hd => exact explore_dead hd
  | entered cells offset thread passed he => exact explore_entered he
  | follow cells offset thread passed i next hi he hf ih =>
    have hlt := (exists_getElem_body hi).1
    have hnext := h _ (ht.resolve_right (Nat.not_le.2 hlt)) (fun hmem => he (hsub _ hmem)) i hi
    rw [Instruction.next?_of_follow hf] at hnext
    rw [explore_follow hi he hf, List.flatMap_eq_nil_iff]
    intro t hmem
    exact ih t hmem h (fun q hq => List.mem_cons_of_mem _ (hsub q hq))
      (hnext _ (List.mem_map_of_mem hmem))
  | accept cells offset thread passed hi he =>
    have hlt := (exists_getElem_body hi).1
    have hnil := h _ (ht.resolve_right (Nat.not_le.2 hlt)) (fun hmem => he (hsub _ hmem)) .accept
      hi thread.slots
    rw [explore_accept hi List.not_mem_nil] at hnil
    cases hnil
  | consume cell rest offset thread passed i hi he ha ih =>
    have hlt := (exists_getElem_body hi).1
    have hnil := h _ (ht.resolve_right (Nat.not_le.2 hlt)) (fun hmem => he (hsub _ hmem)) i hi
    rw [Instruction.next?_of_accepts ha] at hnil
    have hnil := hnil thread.slots
    rw [explore_consume hi List.not_mem_nil ha] at hnil
    rw [explore_consume hi he ha, hnil]
  | stop cells offset thread passed i hi he hn hne hc => exact explore_stop hi hn hne hc

/-- A thread that waits has entered nothing that matters. -/
theorem Waits.explore_eq (h : p.Waits thread) (he : thread.position ∉ entered) :
    p.explore cells offset thread entered = p.explore cells offset thread [] := by
  obtain ⟨i, hi, hn⟩ := h
  by_cases ha : i = .accept
  · subst ha
    rw [explore_accept hi he, explore_accept hi List.not_mem_nil]
  · by_cases hc : ∀ cell ∈ cells.head?, i.accepts cell.char = false
    · rw [explore_stop hi hn ha hc, explore_stop hi hn ha hc]
    · cases cells with
      | nil => exact absurd (by simp) hc
      | cons cell rest =>
        have hc : i.accepts cell.char = true := by simpa using hc
        rw [explore_consume hi he hc, explore_consume hi List.not_mem_nil hc]

/-- A thread that waits and finds nothing is at a dead end. -/
theorem Waits.deadEnd (h : p.Waits thread) (hnil : p.explore cells offset thread [] = []) :
    p.DeadEnd cells offset tried thread.position := by
  obtain ⟨i, hi, hn⟩ := h
  intro i' hi'
  obtain rfl : i = i' := Option.some.inj (hi.symm.trans hi')
  rw [hn]
  exact fun slots => explore_eq_nil_of_position_eq hnil rfl

end Program

namespace Scheduler

variable {p : Program} {cells : List Cell} {offset : Nat}

/-- The walk of a stack schedules the threads that find its first match. If nothing is found, then
the positions marked so far are exhausted, and all of the stack is marked. -/
theorem head?_reached (s : Scheduler p.size) (stack : List Thread) (entered : List Nat)
    (hentered : ∀ q ∈ entered, s.Marked offset q)
    (hex : p.Exhausted cells offset (s.Marked offset) entered) :
    ((s.reached offset stack).flatMap (p.explore cells offset · [])).head? =
        (stack.flatMap (p.explore cells offset · entered)).head? ∧
      (stack.flatMap (p.explore cells offset · entered) = [] →
        p.Exhausted cells offset ((s.after offset stack).Marked offset) entered ∧
        ∀ t ∈ stack, (s.after offset stack).Marked offset t.position ∨ p.size ≤ t.position) := by
  induction s, stack using walkRecursion offset generalizing entered with
  | nil s => simp [hex]
  | dead s thread rest hd ih =>
    obtain ⟨ih₁, ih₂⟩ := ih entered hentered hex
    rw [reached_dead hd, after_dead hd, List.flatMap_cons, Program.explore_dead hd, List.nil_append]
    refine ⟨ih₁, fun hnil => ⟨(ih₂ hnil).1, ?_⟩⟩
    exact List.forall_mem_cons.2 ⟨Or.inr hd, (ih₂ hnil).2⟩
  | marked s thread rest hm ih =>
    obtain ⟨ih₁, ih₂⟩ := ih entered hentered hex
    -- The thread is dropped; what it would find behind marked positions has been tried in vain.
    rw [reached_marked hm, after_marked hm, List.flatMap_cons,
      hex.explore_eq_nil (fun _ h => h) (Or.inl hm), List.nil_append]
    refine ⟨ih₁, fun hnil => ⟨(ih₂ hnil).1, ?_⟩⟩
    exact List.forall_mem_cons.2 ⟨Or.inl (hm.after rest), (ih₂ hnil).2⟩
  | follow s thread rest next h hm hf ih₁ ih₂ =>
    have hi := Array.getElem?_eq_getElem h
    have he : thread.position ∉ entered := fun hmem =>
      isMarked_eq_false_iff.1 hm (hentered _ hmem)
    obtain ⟨hhead, hnext⟩ := ih₁ (thread.position :: entered)
      (List.forall_mem_cons.2 ⟨marked_enter.2 (Or.inl rfl),
        fun q hq => marked_enter.2 (Or.inr (hentered q hq))⟩)
      (hex.enter fun z => marked_enter)
    rw [reached_follow h hm hf, after_follow h hm hf, List.flatMap_cons,
      Program.explore_follow hi he hf, List.flatMap_append, List.head?_append, List.head?_append,
      hhead]
    cases hfound : next.flatMap (p.explore cells offset · (thread.position :: entered)) with
    | cons f found => simp
    | nil =>
      -- All branches behind the instruction have been tried in vain, so it is left.
      obtain ⟨hex', hmarked⟩ := hnext hfound
      have hmem : ((s.enter ⟨thread.position, h⟩ offset).after offset next).Marked offset
          thread.position := (marked_enter.2 (Or.inl rfl)).after next
      obtain ⟨ih₁, ih₂⟩ := ih₂ entered
        (fun q hq => (marked_enter.2 (Or.inr (hentered q hq))).after next)
        (hex'.leave fun i hi' => by
          obtain rfl := Option.some.inj (hi.symm.trans hi')
          rw [Instruction.next?_of_follow hf]
          simpa using hmarked)
      refine ⟨by simpa using ih₁, fun hnil => ?_⟩
      rw [List.nil_append] at hnil
      exact ⟨(ih₂ hnil).1, List.forall_mem_cons.2 ⟨Or.inl (hmem.after rest), (ih₂ hnil).2⟩⟩
  | wait s thread rest h hm hf ih =>
    have hi := Array.getElem?_eq_getElem h
    have he : thread.position ∉ entered := fun hmem =>
      isMarked_eq_false_iff.1 hm (hentered _ hmem)
    have hwaits : p.Waits thread := ⟨_, hi, Instruction.follow_eq_none_iff.1 hf⟩
    rw [reached_wait h hm hf, after_wait h hm hf, List.flatMap_cons, List.flatMap_cons,
      hwaits.explore_eq he, List.head?_append, List.head?_append]
    cases hfound : p.explore cells offset thread [] with
    | cons f found => simp
    | nil =>
      have hmem : (s.enter ⟨thread.position, h⟩ offset).Marked offset thread.position :=
        marked_enter.2 (Or.inl rfl)
      obtain ⟨ih₁, ih₂⟩ := ih entered (fun q hq => marked_enter.2 (Or.inr (hentered q hq)))
        ((hex.enter fun z => marked_enter).leave (hwaits.deadEnd hfound))
      refine ⟨by simpa using ih₁, fun hnil => ?_⟩
      rw [List.nil_append] at hnil
      exact ⟨(ih₂ hnil).1, List.forall_mem_cons.2 ⟨Or.inl (hmem.after rest), (ih₂ hnil).2⟩⟩

end Scheduler

namespace Program

variable {p : Program} {offset : Nat} {thread : Thread}

theorem isAccepting_iff : p.isAccepting thread = true ↔ p.body[thread.position]? = some .accept :=
  beq_iff_eq

/-- What a thread that waits finds behind the next cell. -/
theorem Waits.explore_cons (h : p.Waits thread) (ha : p.isAccepting thread = false) (cell : Cell)
    (rest : List Cell) :
    p.explore (cell :: rest) offset thread [] =
      (p.advance cell.char [thread]).flatMap (p.explore rest (offset + cell.width) · []) := by
  obtain ⟨i, hi, hn⟩ := h
  cases hc : i.accepts cell.char with
  | true =>
    rw [explore_consume hi List.not_mem_nil hc]
    simp [advance, hi, hc]
  | false =>
    have hne : i ≠ .accept := by
      rintro rfl
      rw [isAccepting_iff.2 hi] at ha
      cases ha
    rw [explore_stop hi hn hne (by simpa using hc)]
    simp [advance, hi, hc]

/-- Threads that wait at the end of a text find something only if they accept. -/
theorem Waits.explore_end (h : p.Waits thread) (ha : p.isAccepting thread = false) :
    p.explore [] offset thread [] = [] := by
  obtain ⟨i, hi, hn⟩ := h
  refine explore_stop hi hn ?_ (by simp)
  rintro rfl
  rw [isAccepting_iff.2 hi] at ha
  cases ha

theorem advance_cons (c : Char) (threads : List Thread) :
    p.advance c (thread :: threads) = p.advance c [thread] ++ p.advance c threads := by
  rw [← List.singleton_append, advance, List.filter_append, List.map_append]
  rfl

/-- What threads that wait and do not accept find behind the next cell. -/
theorem flatMap_explore_cons {cell : Cell} {rest : List Cell} {threads : List Thread}
    (h : ∀ t ∈ threads, p.Waits t ∧ p.isAccepting t = false) :
    threads.flatMap (p.explore (cell :: rest) offset · []) =
      (p.advance cell.char threads).flatMap (p.explore rest (offset + cell.width) · []) := by
  induction threads with
  | nil => rfl
  | cons thread threads ih =>
    obtain ⟨⟨hw, ha⟩, h⟩ := List.forall_mem_cons.1 h
    rw [List.flatMap_cons, hw.explore_cons ha, advance_cons cell.char threads,
      List.flatMap_append, ih h]

/-- The first match of threads that wait is one of those ahead of the first that accepts, or else
it is the one made there. -/
theorem head?_explore_visit {cells : List Cell} {threads : List Thread}
    (h : ∀ t ∈ threads, p.Waits t) :
    (threads.flatMap (p.explore cells offset · [])).head? =
      ((threads.takeWhile (!p.isAccepting ·)).flatMap (p.explore cells offset · [])).head?.or
        (p.visit offset threads).found? := by
  induction threads with
  | nil => rfl
  | cons thread threads ih =>
    have ih := ih fun t ht => h t (List.mem_cons_of_mem _ ht)
    cases ha : p.isAccepting thread with
    | true =>
      rw [List.flatMap_cons, explore_accept (isAccepting_iff.1 ha) List.not_mem_nil]
      simp [visit, Visit.found?, ha]
    | false =>
      have hvisit : (p.visit offset (thread :: threads)).found? =
          (p.visit offset threads).found? := by
        simp [visit, Visit.found?, ha]
      rw [hvisit, List.takeWhile_cons_of_pos (by simp [ha]), List.flatMap_cons, List.flatMap_cons,
        List.head?_append, List.head?_append, ih, Option.or_assoc]

/-- The threads ahead of the first one that accepts wait for a cell. -/
theorem waits_of_mem_takeWhile {threads : List Thread} (h : ∀ t ∈ threads, p.Waits t) :
    ∀ t ∈ threads.takeWhile (!p.isAccepting ·), p.Waits t ∧ p.isAccepting t = false :=
  fun t ht => ⟨h t ((List.takeWhile_sublist _).mem ht), by simpa using List.mem_takeWhile_imp ht⟩

/-- Moving on finds the first match explored from the waiting threads, if there is one. -/
theorem found_moveOn (cells : List Cell) (offset : Nat) (s : Scheduler p.size)
    (threads : List Thread) (found : Option Found) (visits : Array Visit)
    (hw : ∀ t ∈ threads, p.Waits t) (hs : ∀ o q, offset < o → ¬ s.Marked o q)
    (hc : ∀ cell ∈ cells, 0 < cell.width) :
    (p.moveOn cells offset s threads found visits).2.1 =
      (threads.flatMap (p.explore cells offset · [])).head?.or found := by
  induction cells generalizing offset s threads found visits with
  | nil =>
    by_cases ht : threads = []
    · simp [ht]
    · have hnil : (threads.takeWhile (!p.isAccepting ·)).flatMap (p.explore [] offset · []) = [] :=
        List.flatMap_eq_nil_iff.2 fun t ht =>
          let ⟨hw, ha⟩ := waits_of_mem_takeWhile hw t ht
          hw.explore_end ha
      rw [moveOn_end ht, head?_explore_visit hw, hnil]
      rfl
  | cons cell rest ih =>
    by_cases ht : threads = []
    · simp [ht]
    · obtain ⟨hwidth, hc⟩ := List.forall_mem_cons.1 hc
      have hnext : ∀ t ∈ s.reached (offset + cell.width)
          (p.advance cell.char (threads.takeWhile (!p.isAccepting ·))), p.Waits t := fun t ht =>
        Scheduler.waits_of_mem_reached ht
      have hfresh : ∀ o q, offset + cell.width ≤ o → ¬ s.Marked o q := fun o q ho =>
        hs o q (by omega)
      -- No offset to come has marks yet, so nothing is exhausted there to begin with.
      rw [moveOn_cons ht, head?_explore_visit hw,
        flatMap_explore_cons (waits_of_mem_takeWhile hw),
        Scheduler.walk_eq_after]
      simp only [Array.empty_append]
      rw [ih _ _ _ _ _ hnext (fun o q ho hm => hfresh o q (by omega) (hm.of_after (by omega))) hc,
        (s.head?_reached _ [] (by simp) fun q hq => absurd hq (hfresh _ q (by omega))).1,
        Option.or_assoc]

/-- A run finds the first match that is explored from the beginning of the program, whatever earlier
runs have marked. -/
theorem found_runFrom (p : Program) (s : Scheduler p.size) (cells : List Cell) (start : Nat)
    (hc : ∀ cell ∈ cells, 0 < cell.width) :
    (p.runFrom s cells start).1.found =
      (p.explore cells start ⟨0, Array.replicate p.slotCount none⟩ []).head? := by
  show (p.moveOn cells start _ _ none #[]).2.1 = _
  rw [Scheduler.walk_eq_after, Array.empty_append, found_moveOn]
  · rw [(Scheduler.head?_reached _ _ [] (by simp) fun q hq =>
      absurd hq Scheduler.not_marked_start).1]
    simp
  · intro t ht
    exact Scheduler.waits_of_mem_reached ht
  · intro o q ho hm
    exact Scheduler.not_marked_start (hm.of_after (by omega))
  · exact hc

/-- A run of any program on any text, from any offset on, finds nothing just if no path from there
accepts. Otherwise it finds the end and the slots of the accepting path with the least choices. -/
theorem found_runFrom_iff_least_path (p : Program) (s : Scheduler p.size) (t : Text)
    (start : Nat) :
    let found := (p.runFrom s (t.cellsFrom start) start).1.found
    let Accepting := Path p (t.cellsFrom start) start 0 (Array.replicate p.slotCount none) []
    (found = none ↔ ∀ choices finish saved, ¬ Accepting choices finish saved) ∧
      ∀ f, found = some f ↔ ∃ choices, Accepting choices f.finish f.slots ∧
        ∀ choices' finish saved, Accepting choices' finish saved →
          choices < choices' ∨ (choices', finish, saved) = (choices, f.finish, f.slots) := by
  intro found Accepting
  have hfound : found = (p.explore (t.cellsFrom start) start
      ⟨0, Array.replicate p.slotCount none⟩ []).head? :=
    p.found_runFrom s _ start fun cell => Text.width_pos_of_mem_cellsFrom
  rw [hfound]
  exact ⟨List.head?_eq_none_iff.trans explore_eq_nil_iff, fun f => head?_explore_eq_some_iff⟩

end Program

end Lockstep
