import Lockstep.Log
import Lockstep.Proofs.Machine.Admission
import Lockstep.Proofs.Machine.Grounded
import Lockstep.Proofs.Text.Boundary
import Mathlib.Data.List.Chain

/-!
# What the lines of a run tell

A run that is traced reports the threads that wait at each offset, and the slots of a thread that
accepts. The lines tell how the run went: one visit leads to the next over one cell of the text, by
the threads ahead of the first one that accepts, and the last match that is reported is the result.

* `Program.Precedes`: one visit comes right before another.
* `Scheduler.exists_leads_of_mem_reached`: where the threads come from that a walk schedules.
* `Program.isChain_visitsOf_stages`: what one stage keeps, along a run.
* `Program.found_moveOn_eq_getLast?`: the match made so far is that of the last visit that made one.
* `Program.trace_tells_run`: the lines of a run.
-/

namespace Lockstep

/-- The match that a line of the log reports. -/
def LogLine.found? : LogLine → Option Found
  | accepted offset slots => some ⟨offset, slots⟩
  | _ => none

/-- The lines of a visit report the match made in it. -/
theorem Visit.filterMap_trace (v : Visit) :
    v.trace.filterMap LogLine.found? = v.found?.toList := by
  obtain ⟨offset, positions, _ | slots⟩ := v <;> rfl

/-- The lines of a run report the matches made in its visits. -/
theorem Outcome.filterMap_trace (o : Outcome) :
    o.trace.filterMap LogLine.found? = o.visits.toList.filterMap Visit.found? := by
  have hvisits : (o.visits.toList.flatMap Visit.trace).filterMap LogLine.found? =
      o.visits.toList.filterMap Visit.found? := by
    simp only [List.filterMap_flatMap, Visit.filterMap_trace, ← List.filterMap_eq_flatMap_toList]
  show (o.visits.toList.flatMap Visit.trace ++ [LogLine.peak o.peak]).filterMap LogLine.found? = _
  rw [List.filterMap_append, hvisits]
  exact List.append_nil _

/-- The threads that a walk schedules come from those on its stack without consuming anything. -/
theorem Scheduler.exists_leads_of_mem_reached {p : Program} {s : Scheduler p.size} {offset : Nat}
    {stack : List Thread} {t : Thread} (h : t ∈ s.reached offset stack) :
    ∃ t₀ ∈ stack, Relation.ReflTransGen p.Leads t₀.position t.position := by
  induction s, stack using walkRecursion offset with
  | nil s => simp at h
  | dead s thread rest hd ih =>
    rw [reached_dead hd] at h
    obtain ⟨t₀, hmem, hleads⟩ := ih h
    exact ⟨t₀, List.mem_cons_of_mem _ hmem, hleads⟩
  | marked s thread rest hm ih =>
    rw [reached_marked hm] at h
    obtain ⟨t₀, hmem, hleads⟩ := ih h
    exact ⟨t₀, List.mem_cons_of_mem _ hmem, hleads⟩
  | follow s thread rest next hlt hm hf ih₁ ih₂ =>
    rw [reached_follow hlt hm hf, List.mem_append] at h
    rcases h with h | h
    · obtain ⟨t₁, hmem, hleads⟩ := ih₁ h
      have hfirst : p.Leads thread.position t₁.position :=
        ⟨_, _, Array.getElem?_eq_getElem hlt, Instruction.next?_of_follow hf,
          List.mem_map_of_mem hmem⟩
      exact ⟨thread, List.mem_cons_self, .head hfirst hleads⟩
    · obtain ⟨t₀, hmem, hleads⟩ := ih₂ h
      exact ⟨t₀, List.mem_cons_of_mem _ hmem, hleads⟩
  | wait s thread rest hlt hm hf ih =>
    rw [reached_wait hlt hm hf, List.mem_cons] at h
    rcases h with rfl | h
    · exact ⟨t, List.mem_cons_self, .refl⟩
    · obtain ⟨t₀, hmem, hleads⟩ := ih h
      exact ⟨t₀, List.mem_cons_of_mem _ hmem, hleads⟩

namespace Program

variable {p : Program} {t : Text} {cells : List Cell} {offset : Nat} {s : Scheduler p.size}
  {stack threads : List Thread}

/-- A visit comes right before another in a run over a text: a cell starts at its offset and the
other one takes place behind that, and each thread that waits there stems from one that waited here,
ahead of the first to accept, consumed the cell and went on without consuming anything else. -/
def Precedes (p : Program) (t : Text) (v w : Visit) : Prop :=
  ∃ cell, t.cellAt? v.offset = some cell ∧ w.offset = v.offset + cell.width ∧
    ∀ z ∈ w.positions, ∃ y ∈ v.positions.takeWhile (p.body[·]? != some .accept),
      (∃ i, p.body[y]? = some i ∧ i.accepts cell.char = true) ∧
        Relation.ReflTransGen p.Leads (y + 1) z

/-! ### From one visit to the next -/

/-- A thread that has consumed a character comes from one that waited ahead of those cut off. -/
theorem exists_mem_takeWhile_of_mem_advance {c : Char} {thread : Thread}
    (h : thread ∈ p.advance c (threads.takeWhile (!p.isAccepting ·))) :
    ∃ y ∈ (threads.map Thread.position).takeWhile (p.body[·]? != some .accept),
      (∃ i, p.body[y]? = some i ∧ i.accepts c = true) ∧ thread.position = y + 1 := by
  obtain ⟨from_, hfrom, rfl⟩ := List.mem_map.1 h
  obtain ⟨hahead, hconsumes⟩ := List.mem_filter.1 hfrom
  obtain ⟨i, hi, haccepts⟩ : ∃ i, p.body[from_.position]? = some i ∧ i.accepts c = true := by
    simpa only [Option.any_eq_true] using hconsumes
  refine ⟨from_.position, ?_, ⟨i, hi, haccepts⟩, rfl⟩
  rw [List.takeWhile_map]
  exact List.mem_map_of_mem hahead

/-- The first visit of a row of stages is that of the threads which wait first, if there are any. -/
theorem head?_visitsOf_stages (cells : List Cell) (offset : Nat) (s : Scheduler p.size)
    (stack : List Thread) :
    (p.visitsOf (p.stages cells offset s stack)).head? =
      if s.reached offset stack = [] then none
      else some (p.visit offset (s.reached offset stack)) := by
  by_cases h : s.reached offset stack = []
  · rw [stages_of_reached_eq_nil h, if_pos h]
    rfl
  · rw [if_neg h]
    cases cells with
    | nil => simp [stages, visitsOf, h]
    | cons cell rest => simp [stages_cons h, visitsOf, h]

/-- The visits of a run come one after the other in the text. -/
theorem pairwise_visitsOf_stages (hc : ∀ cell ∈ cells, 0 < cell.width) :
    (p.visitsOf (p.stages cells offset s stack)).Pairwise (·.offset < ·.offset) :=
  ((pairwise_stages hc offset s stack).2.filter _).map _ fun _ _ h => h

/-- Each visit of a run comes right before the next one. -/
theorem isChain_visitsOf_stages (hcells : t.cellsFrom offset = cells)
    (h : t.IsBoundary offset ∨ cells = []) :
    (p.visitsOf (p.stages cells offset s stack)).IsChain (p.Precedes t) := by
  induction cells generalizing offset s stack with
  | nil =>
    by_cases ht : s.reached offset stack = [] <;> simp [stages, visitsOf, ht]
  | cons cell rest ih =>
    by_cases ht : s.reached offset stack = []
    · simp [stages_of_reached_eq_nil ht, visitsOf]
    · obtain ⟨hnext, hrest⟩ :=
        Text.isBoundary_add_width (h.resolve_right (List.cons_ne_nil _ _)) hcells
      have hcons : p.visitsOf (p.stages (cell :: rest) offset s stack) =
          p.visit offset (s.reached offset stack) ::
            p.visitsOf (p.stages rest (offset + cell.width) (s.after offset stack)
              (p.advance cell.char ((s.reached offset stack).takeWhile (!p.isAccepting ·)))) := by
        simp [stages_cons ht, visitsOf, ht]
      rw [hcons, List.isChain_cons, head?_visitsOf_stages]
      refine ⟨fun w hw => ?_, ih hrest (Or.inl hnext)⟩
      split at hw
      · cases hw
      · -- The next walk starts from the threads that consumed the cell, one position on.
        obtain rfl := Option.some.inj hw
        refine ⟨cell, by rw [visit, Text.cellAt?, hcells]; rfl, rfl, fun z hz => ?_⟩
        obtain ⟨thread, hthread, rfl⟩ := List.mem_map.1 hz
        obtain ⟨t₀, hmem, hleads⟩ := Scheduler.exists_leads_of_mem_reached hthread
        obtain ⟨y, hy, hconsumes, hposition⟩ := exists_mem_takeWhile_of_mem_advance hmem
        exact ⟨y, hy, hconsumes, hposition ▸ hleads⟩

/-! ### The result -/

/-- A match replaces the one made before it. -/
theorem or_found_eq_getLast? {visits : Array Visit} {found : Option Found}
    (h : found = (visits.toList.filterMap Visit.found?).getLast?) (v : Visit) :
    v.found?.or found = ((visits.push v).toList.filterMap Visit.found?).getLast? := by
  rw [Array.toList_push, List.filterMap_append, List.getLast?_append, ← h]
  cases hv : v.found? <;> simp [hv]

/-- If the match made so far is that of the last visit that made one, then this is still true after
threads have been moved on. -/
theorem found_moveOn_eq_getLast? (cells : List Cell) (offset : Nat) (s : Scheduler p.size)
    (threads : List Thread) (found : Option Found) (visits : Array Visit)
    (h : found = (visits.toList.filterMap Visit.found?).getLast?) :
    let result := p.moveOn cells offset s threads found visits
    result.2.1 = (result.2.2.toList.filterMap Visit.found?).getLast? := by
  induction cells generalizing offset s threads found visits with
  | nil =>
    by_cases ht : threads = []
    · rwa [ht, moveOn_nil]
    · rw [moveOn_end ht]
      exact or_found_eq_getLast? h _
  | cons cell rest ih =>
    by_cases ht : threads = []
    · rwa [ht, moveOn_nil]
    · rw [moveOn_cons ht]
      exact ih _ _ _ _ _ (or_found_eq_getLast? h _)

/-- The result of a run is the last match that its lines report. -/
theorem found_runFrom_eq_getLast? (p : Program) (s : Scheduler p.size) (cells : List Cell)
    (start : Nat) :
    let o := (p.runFrom s cells start).1
    o.found = (o.trace.filterMap LogLine.found?).getLast? := by
  intro o
  rw [Outcome.filterMap_trace]
  exact found_moveOn_eq_getLast? cells start _ _ none #[] rfl

/-- A run finds nothing just if its lines report no match. -/
theorem found_runFrom_eq_none_iff (p : Program) (s : Scheduler p.size) (cells : List Cell)
    (start : Nat) :
    let o := (p.runFrom s cells start).1
    o.found = none ↔ ∀ offset slots, .accepted offset slots ∉ o.trace := by
  intro o
  have hfound : o.found = (o.trace.filterMap LogLine.found?).getLast? :=
    p.found_runFrom_eq_getLast? s cells start
  rw [hfound, List.getLast?_eq_none_iff, List.filterMap_eq_nil_iff]
  constructor
  · intro h offset slots hmem
    cases h _ hmem
  · intro h line hmem
    cases line with
    | accepted offset slots => exact absurd hmem (h offset slots)
    | _ => rfl

/-! ### The threads of a visit -/

/-- A visit reports that a thread accepts just if one of those that wait can. -/
theorem isSome_accepted_visit_iff :
    (p.visit offset threads).accepted.isSome = true ↔
      ∃ q ∈ (p.visit offset threads).positions, p.body[q]? = some .accept := by
  simp [visit, isAccepting]

/-- Some thread waits at each visit of a run, and there are not more of them than the peak. -/
theorem length_positions_le_peak {cells : List Cell} (hc : ∀ cell ∈ cells, 0 < cell.width)
    {start : Nat} {v : Visit} (hv : v ∈ (p.runFrom s cells start).1.visits.toList) :
    v.positions ≠ [] ∧ v.positions.length ≤ (p.runFrom s cells start).1.peak := by
  obtain ⟨-, hvisits, -, hpeak⟩ := p.runFrom_eq_stages s cells start hc
  rw [hvisits] at hv
  obtain ⟨stage, hmem, rfl⟩ := List.mem_map.1 hv
  obtain ⟨hstage, hwaits⟩ := List.mem_filter.1 hmem
  obtain ⟨s', stack, hadmitted, hwaiting, -⟩ :=
    exists_walk_of_mem_stages (n := p.slotCount) (by simp) hstage
  have hle : stage.admitted.length ≤ (p.runFrom s cells start).1.peak :=
    (List.max?_eq_some_iff.1 hpeak).2 _ (List.mem_map_of_mem hstage)
  refine ⟨by simpa [visit] using hwaits, ?_⟩
  calc (stage.waiting.map Thread.position).length
      ≤ (stage.admitted.map Fin.val).length := by
        rw [hadmitted, hwaiting]
        exact (s'.sublist_admits stage.offset stack).length_le
    _ = stage.admitted.length := List.length_map _
    _ ≤ _ := hle

/-- **What the lines of a run tell.** The lines of a run, between the first and the last one, are
those of its visits, each with a match behind it if one is made. The first visit is that of the
threads that wait at the start, if there are any. The offsets grow, and each visit comes right
before the next one. At each of them some thread waits, there are not more of them than the peak,
and a match is reported just if one of them can accept. The result is the last match that is
reported, nothing if there is none. The peak is at most the size of the program. -/
theorem trace_tells_run (p : Program) (s : Scheduler p.size) (t : Text) (start : Nat) :
    let o := (p.runFrom s (t.cellsFrom start) start).1
    let visits := o.visits.toList
    let initial := s.start.reached start [⟨0, Array.replicate p.slotCount none⟩]
    o.trace = .started ::
      visits.flatMap (fun v =>
        .waiting v.offset v.positions :: (v.accepted.map (.accepted v.offset)).toList) ++
      [.peak o.peak] ∧
    visits.head? = (if initial = [] then none else some (p.visit start initial)) ∧
    visits.Pairwise (·.offset < ·.offset) ∧ visits.IsChain (p.Precedes t) ∧
    (∀ v ∈ visits, v.positions ≠ [] ∧ v.positions.length ≤ o.peak ∧
      (v.accepted.isSome ↔ ∃ q ∈ v.positions, p.body[q]? = some .accept)) ∧
    o.found = (o.trace.filterMap LogLine.found?).getLast? ∧
    (o.found = none ↔ ∀ offset slots, .accepted offset slots ∉ o.trace) ∧
    o.peak ≤ p.size := by
  intro o visits initial
  have hc : ∀ cell ∈ t.cellsFrom start, 0 < cell.width := fun _ => Text.width_pos_of_mem_cellsFrom
  obtain ⟨-, hstages, -, hpeak⟩ := p.runFrom_eq_stages s (t.cellsFrom start) start hc
  have hvisits : visits = p.visitsOf (p.stagesFrom s (t.cellsFrom start) start) := hstages
  obtain ⟨stage, hstage, hlength⟩ := List.mem_map.1 (List.max?_eq_some_iff.1 hpeak).1
  refine ⟨rfl, ?_, ?_, ?_, fun v hv => ?_, p.found_runFrom_eq_getLast? s _ start,
    p.found_runFrom_eq_none_iff s _ start, hlength ▸ (of_mem_stagesFrom hstage).2.1⟩
  · rw [hvisits]
    exact head?_visitsOf_stages _ _ _ _
  · rw [hvisits]
    exact pairwise_visitsOf_stages hc
  · rw [hvisits]
    exact isChain_visitsOf_stages rfl <|
      or_iff_not_imp_left.2 Text.cellsFrom_of_not_isBoundary
  · obtain ⟨hne, hle⟩ := length_positions_le_peak hc hv
    rw [hvisits] at hv
    obtain ⟨stage, -, rfl⟩ := List.mem_map.1 hv
    exact ⟨hne, hle, isSome_accepted_visit_iff⟩

end Program

end Lockstep
