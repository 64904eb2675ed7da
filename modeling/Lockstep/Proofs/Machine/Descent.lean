import Lockstep.Machine.Descent
import Lockstep.Proofs.Machine.Admission
import Lockstep.Proofs.Machine.Grounded

/-!
# Adding a thread, with a stack and without

The walk of the scheduler, the loop that follows one thread at a time and the recursive definition
do the same, and what they add can be read off the program: it is what a depth-first search comes
to through the instructions that have not been admitted before.

What makes the last step hard is that the branches of the search share their marks. A branch that
is cut short at a mark was or will be followed elsewhere, and the places still to be followed are
those entered on the way to the current one. So the marks are closed under steps but for these
places, and a way that leads around them cannot leave what is marked.

* `Scheduler.adds_iff_walk_eq`: the walk of a single thread is the recursive definition.
* `Walk.finish_step`, `Walk.exists_iterate_step`: a step of the loop leaves what the walk comes to,
  so that the loop comes to it in the end.
* `Program.Closed`: nothing marked leads out of what is marked, except from the places entered.
* `Program.Arrivals.split`: the arrivals behind a `split` are those over its targets in turn.
* `Scheduler.Adds.closed`, `Scheduler.Adds.exists_arrivals`: what a recursive call leaves behind.
* `Scheduler.walk_eq_recursion`: all of this about the walk.
-/

namespace Lockstep

variable {p : Program} {offset : Nat} {s s' : Scheduler p.size} {threads threads' : Array Thread}
  {thread : Thread}

/-! ### The recursive definition -/

namespace Scheduler

/-- What is added recursively is what the walk of a single thread schedules. -/
theorem Adds.walk_eq (h : Adds p offset s threads thread s' threads') :
    s.walk p offset threads [thread] = (s', threads') := by
  induction h with
  | dead hd => rw [walk_dead hd, walk_nil]
  | marked hlt hm => rw [walk_marked hlt hm, walk_nil]
  | @jump s threads thread target s' threads' hlt hm hi _ ih =>
    have hf : p.body[thread.position].follow thread offset = some [⟨target, thread.slots⟩] := by
      rw [hi]
      rfl
    rw [walk_follow hlt hm hf, List.append_nil, ih]
  | @split s threads thread first second s₁ threads₁ s' threads' hlt hm hi _ _ ih₁ ih₂ =>
    have hf : p.body[thread.position].follow thread offset =
        some ([⟨first, thread.slots⟩] ++ [⟨second, thread.slots⟩]) := by
      rw [hi]
      rfl
    rw [walk_follow hlt hm hf, List.append_nil, walk_append, ih₁, ih₂]
  | @save s threads thread slot s' threads' hlt hm hi _ ih =>
    have hf : p.body[thread.position].follow thread offset =
        some [⟨thread.position + 1, thread.slots.setIfInBounds slot (some offset)⟩] := by
      rw [hi]
      rfl
    rw [walk_follow hlt hm hf, List.append_nil, ih]
  | wait hlt hm hf => rw [walk_wait hlt hm hf, walk_nil]

/-- Adding takes no mark away. -/
theorem Adds.unmarked_le (h : Adds p offset s threads thread s' threads') :
    s'.unmarked offset ≤ s.unmarked offset := by
  have hle := s.unmarked_walk_le offset threads [thread]
  rwa [h.walk_eq] at hle

/-- Recursion ends, since each instruction that is followed leaves one fewer to be admitted. -/
theorem exists_adds (offset : Nat) (s : Scheduler p.size) (threads : Array Thread)
    (thread : Thread) : ∃ s' threads', Adds p offset s threads thread s' threads' := by
  induction hn : s.unmarked offset using Nat.strongRecOn generalizing s threads thread with
  | ind n ih =>
    subst hn
    by_cases hlt : thread.position < p.size
    · by_cases hm : s.isMarked ⟨thread.position, hlt⟩ offset = true
      · exact ⟨s, threads, .marked hlt hm⟩
      · rw [Bool.not_eq_true] at hm
        have henter := unmarked_enter hm
        have hadd (threads : Array Thread) (next : Thread) := ih _ (by omega)
          (s.enter ⟨thread.position, hlt⟩ offset) threads next rfl
        cases hi : p.body[thread.position] with
        | jump target =>
          obtain ⟨s', threads', h⟩ := hadd threads ⟨target, thread.slots⟩
          exact ⟨s', threads', .jump hlt hm hi h⟩
        | split first second =>
          obtain ⟨s₁, threads₁, h₁⟩ := hadd threads ⟨first, thread.slots⟩
          have hle := h₁.unmarked_le
          obtain ⟨s', threads', h₂⟩ := ih _ (by omega) s₁ threads₁ ⟨second, thread.slots⟩ rfl
          exact ⟨s', threads', .split hlt hm hi h₁ h₂⟩
        | save slot =>
          obtain ⟨s', threads', h⟩ := hadd threads
            ⟨thread.position + 1, thread.slots.setIfInBounds slot (some offset)⟩
          exact ⟨s', threads', .save hlt hm hi h⟩
        | _ => exact ⟨_, _, .wait hlt hm (by rw [hi]; rfl)⟩
    · exact ⟨s, threads, .dead (Nat.le_of_not_lt hlt)⟩

/-- The walk of a single thread is the recursive definition, which has one result. -/
theorem adds_iff_walk_eq : Adds p offset s threads thread s' threads' ↔
    s.walk p offset threads [thread] = (s', threads') := by
  refine ⟨Adds.walk_eq, fun h => ?_⟩
  obtain ⟨s₁, threads₁, h₁⟩ := exists_adds offset s threads thread
  obtain ⟨rfl, rfl⟩ := Prod.mk.inj (h₁.walk_eq.symm.trans h)
  exact h₁

end Scheduler

/-! ### The loop with a stack -/

/-- A thread waits where a character is consumed or the program accepts. -/
theorem Instruction.next?_eq_none_iff {i : Instruction} {q : Nat} :
    i.next? q = none ↔ i.consumes = true ∨ i = .accept := by
  constructor
  · intro h
    cases i <;> first | exact Or.inl rfl | exact Or.inr rfl | cases h
  · rintro (h | rfl)
    · exact next?_of_consumes h q
    · rfl

/-- A thread that is followed goes somewhere. -/
theorem Instruction.exists_cons_of_follow {i : Instruction} {next : List Thread}
    (h : i.follow thread offset = some next) : ∃ t others, next = t :: others := by
  cases i <;> cases h <;> exact ⟨_, _, rfl⟩

namespace Walk

/-- What is left of a walk that is under way. -/
def finish (p : Program) (offset : Nat) (w : Walk p.size) : Scheduler p.size × Array Thread :=
  w.scheduler.walk p offset w.threads (w.current.toList ++ w.stack)

section Current

variable {stack next : List Thread} (h : thread.position < p.size)

/-- A thread outside the program comes to an end. -/
theorem step_dead (hd : p.size ≤ thread.position) :
    step p offset ⟨s, threads, some thread, stack⟩ = ⟨s, threads, none, stack⟩ := by
  simp [step, Nat.not_lt.2 hd]

include h

theorem step_marked (hm : s.isMarked ⟨thread.position, h⟩ offset = true) :
    step p offset ⟨s, threads, some thread, stack⟩ = ⟨s, threads, none, stack⟩ := by
  simp [step, h, hm]

variable (hm : s.isMarked ⟨thread.position, h⟩ offset = false)
include hm

/-- A thread goes on to the first place behind an instruction, and the others wait on the stack. -/
theorem step_follow (hf : p.body[thread.position].follow thread offset = some next) :
    step p offset ⟨s, threads, some thread, stack⟩ =
      ⟨s.enter ⟨thread.position, h⟩ offset, threads, next.head?, next.tail ++ stack⟩ := by
  cases hi : p.body[thread.position] <;> rw [hi] at hf <;> cases hf <;> simp [step, h, hm, hi]

theorem step_wait (hf : p.body[thread.position].follow thread offset = none) :
    step p offset ⟨s, threads, some thread, stack⟩ =
      ⟨s.enter ⟨thread.position, h⟩ offset, threads.push thread, none, stack⟩ := by
  cases hi : p.body[thread.position] <;> rw [hi] at hf <;> cases hf <;> simp [step, h, hm, hi]

end Current

/-- **Step.** A walk is done, or a step brings it closer to the same end. -/
theorem finish_step (offset : Nat) (w : Walk p.size) :
    (w.current = none ∧ w.stack = []) ∨
      ((w.step p offset).finish p offset = w.finish p offset ∧
        (w.step p offset).measure offset < w.measure offset) := by
  obtain ⟨s, threads, current, stack⟩ := w
  cases current with
  | none =>
    cases stack with
    | nil => exact Or.inl ⟨rfl, rfl⟩
    | cons thread stack =>
      refine Or.inr ⟨rfl, ?_⟩
      simp only [step, measure, List.length_cons, Option.toList_some, Option.toList_none,
        List.length_nil]
      omega
  | some thread =>
    right
    by_cases h : thread.position < p.size
    · by_cases hm : s.isMarked ⟨thread.position, h⟩ offset = true
      · rw [step_marked h hm]
        refine ⟨?_, ?_⟩
        · simp [finish, Scheduler.walk_marked h hm]
        · simp [measure]
      · rw [Bool.not_eq_true] at hm
        have henter := Scheduler.unmarked_enter hm
        cases hf : p.body[thread.position].follow thread offset with
        | some next =>
          have hlength := Instruction.length_follow_le hf
          obtain ⟨t, others, rfl⟩ := Instruction.exists_cons_of_follow hf
          rw [step_follow h hm hf]
          refine ⟨?_, ?_⟩
          · simp [finish, Scheduler.walk_follow h hm hf]
          · simp only [measure, List.head?_cons, List.tail_cons, Option.toList_some,
              List.length_append, List.length_cons, List.length_nil] at hlength ⊢
            omega
        | none =>
          rw [step_wait h hm hf]
          refine ⟨?_, ?_⟩
          · simp [finish, Scheduler.walk_wait h hm hf]
          · simp only [measure, Option.toList_some, Option.toList_none, List.length_cons,
              List.length_nil]
            omega
    · rw [step_dead (Nat.le_of_not_lt h)]
      refine ⟨?_, ?_⟩
      · simp [finish, Scheduler.walk_dead (Nat.le_of_not_lt h)]
      · simp [measure]

/-- **Run.** A walk comes to its end with nothing on the stack. -/
theorem exists_iterate_step (offset : Nat) (w : Walk p.size) : ∃ n ≤ w.measure offset,
    (step p offset)^[n] w = ⟨(w.finish p offset).1, (w.finish p offset).2, none, []⟩ := by
  induction hn : w.measure offset using Nat.strongRecOn generalizing w with
  | ind m ih =>
    subst hn
    rcases w.finish_step offset with ⟨hcurrent, hstack⟩ | ⟨hfinish, hlt⟩
    · obtain ⟨s, threads, current, stack⟩ := w
      obtain rfl : current = none := hcurrent
      obtain rfl : stack = [] := hstack
      refine ⟨0, Nat.zero_le _, ?_⟩
      simp [finish]
    · obtain ⟨n, hn, hiterate⟩ := ih _ hlt _ rfl
      refine ⟨n + 1, Nat.succ_le_of_lt (Nat.lt_of_le_of_lt hn hlt), ?_⟩
      rw [Function.iterate_succ_apply, hiterate, hfinish]

end Walk

/-! ### What is reached -/

namespace Program

variable {free marked marked' : Nat → Prop} {entered entered' : List Nat} {q z target : Nat}
  {slots saved : Slots} {choices : List Bool} {i : Instruction} {next : List Nat}

theorem leads_iff (hi : p.body[q]? = some i) (hn : i.next? q = some next) :
    p.Leads q z ↔ z ∈ next := by
  simp [Leads, hi, hn]

theorem not_leads (hi : p.body[q]? = some i) (hn : i.next? q = none) : ¬ p.Leads q z := by
  simp [Leads, hi, hn]

/-- All that a free position leads to has been marked, once it is marked itself, unless it is among
those entered last. -/
def Closed (p : Program) (free marked : Nat → Prop) (entered : List Nat) : Prop :=
  ∀ q, marked q → free q → q ∉ entered → ∀ z, p.Leads q z → marked z ∨ p.size ≤ z

theorem Closed.enter (h : p.Closed free marked entered)
    (hmarked : ∀ z, marked' z ↔ z = q ∨ marked z) : p.Closed free marked' (q :: entered) := by
  intro z hz hfree hmem y hy
  rw [List.mem_cons, not_or] at hmem
  exact (h z (((hmarked z).1 hz).resolve_left hmem.1) hfree hmem.2 y hy).imp_left
    fun hy => (hmarked y).2 (Or.inr hy)

/-- A position is left when all that it leads to has been marked. -/
theorem Closed.leave (h : p.Closed free marked (q :: entered))
    (hq : ∀ z, p.Leads q z → marked z ∨ p.size ≤ z) : p.Closed free marked entered := by
  intro z hz hfree hmem
  by_cases he : z = q
  · exact he ▸ hq
  · exact h z hz hfree fun hz' => (List.mem_cons.1 hz').elim he hmem

/-- What is reached from a marked position is marked. -/
theorem Closed.marked_of_reaches (h : p.Closed free marked [])
    (hq : marked q ∨ p.size ≤ q)
    (hreach : Relation.ReflTransGen (fun y z => free y ∧ p.Leads y z) q target) :
    marked target ∨ p.size ≤ target := by
  induction hreach with
  | refl => exact hq
  | @tail y z _ hstep ih =>
    obtain ⟨hfree, hleads⟩ := hstep
    obtain ⟨i, next, hi, -⟩ := id hleads
    have hlt := (exists_getElem_body hi).1
    exact h y (ih.resolve_right (Nat.not_le.2 hlt)) hfree List.not_mem_nil z hleads

/-! ### Ways to an instruction -/

namespace Approach

theorem exists_waits (h : p.Approach free offset q slots entered choices target saved) :
    free target ∧ ∃ i, p.body[target]? = some i ∧ i.next? target = none := by
  induction h with
  | wait hi hf hfree _ => exact ⟨hfree, _, hi, Instruction.follow_eq_none_iff.1 hf⟩
  | jump _ _ _ _ ih | first _ _ _ _ ih | second _ _ _ _ ih | save _ _ _ _ ih => exact ih

theorem reaches (h : p.Approach free offset q slots entered choices target saved) :
    Relation.ReflTransGen (fun y z => free y ∧ p.Leads y z) q target := by
  induction h with
  | wait => exact .refl
  | jump hi hfree _ _ ih => exact .head ⟨hfree, (leads_iff hi rfl).2 (by simp)⟩ ih
  | first hi hfree _ _ ih => exact .head ⟨hfree, (leads_iff hi rfl).2 (by simp)⟩ ih
  | second hi hfree _ _ ih => exact .head ⟨hfree, (leads_iff hi rfl).2 (by simp)⟩ ih
  | save hi hfree _ _ ih => exact .head ⟨hfree, (leads_iff hi rfl).2 (by simp)⟩ ih

end Approach

/-- No way past the positions entered last leads out of what has been marked. -/
theorem Closed.marked_of_approach (h : p.Closed free marked entered)
    (hsub : ∀ y ∈ entered, y ∈ entered') (hq : marked q ∨ p.size ≤ q)
    (happroach : p.Approach free offset q slots entered' choices target saved) :
    marked target := by
  have hstep {q : Nat} {entered' : List Nat} {i : Instruction} {next : List Nat}
      (hsub : ∀ y ∈ entered, y ∈ entered') (hq : marked q ∨ p.size ≤ q)
      (hi : p.body[q]? = some i) (hfree : free q) (hmem : q ∉ entered')
      (hn : i.next? q = some next) (z : Nat) (hz : z ∈ next) : marked z ∨ p.size ≤ z :=
    h q (hq.resolve_right (Nat.not_le.2 (exists_getElem_body hi).1)) hfree
      (fun hq => hmem (hsub q hq)) z ((leads_iff hi hn).2 hz)
  induction happroach with
  | wait hi => exact hq.resolve_right (Nat.not_le.2 (exists_getElem_body hi).1)
  | jump hi hfree hmem _ ih =>
    exact ih (fun y hy => List.mem_cons_of_mem _ (hsub y hy))
      (hstep hsub hq hi hfree hmem rfl _ (by simp))
  | first hi hfree hmem _ ih =>
    exact ih (fun y hy => List.mem_cons_of_mem _ (hsub y hy))
      (hstep hsub hq hi hfree hmem rfl _ (by simp))
  | second hi hfree hmem _ ih =>
    exact ih (fun y hy => List.mem_cons_of_mem _ (hsub y hy))
      (hstep hsub hq hi hfree hmem rfl _ (by simp))
  | save hi hfree hmem _ ih =>
    exact ih (fun y hy => List.mem_cons_of_mem _ (hsub y hy))
      (hstep hsub hq hi hfree hmem rfl _ (by simp))

namespace Approach

variable {fst snd slot t : Nat}

theorem of_wait (hi : p.body[q]? = some i) (hf : i.follow ⟨q, slots⟩ offset = none)
    (h : p.Approach free offset q slots entered choices target saved) :
    choices = [] ∧ target = q ∧ saved = slots := by
  cases h with
  | wait => exact ⟨rfl, rfl, rfl⟩
  | jump hi' | first hi' | second hi' | save hi' =>
    cases hi.symm.trans hi'
    cases hf

theorem of_jump (hi : p.body[q]? = some (.jump t))
    (h : p.Approach free offset q slots entered choices target saved) :
    p.Approach free offset t slots (q :: entered) choices target saved := by
  cases h with
  | jump hi' _ _ h =>
    cases hi.symm.trans hi'
    exact h
  | wait hi' hf =>
    cases hi.symm.trans hi'
    cases hf
  | first hi' | second hi' | save hi' => cases hi.symm.trans hi'

theorem of_split (hi : p.body[q]? = some (.split fst snd))
    (h : p.Approach free offset q slots entered choices target saved) :
    (∃ rest, choices = false :: rest ∧
      p.Approach free offset fst slots (q :: entered) rest target saved) ∨
    ∃ rest, choices = true :: rest ∧
      p.Approach free offset snd slots (q :: entered) rest target saved := by
  cases h with
  | first hi' _ _ h =>
    cases hi.symm.trans hi'
    exact Or.inl ⟨_, rfl, h⟩
  | second hi' _ _ h =>
    cases hi.symm.trans hi'
    exact Or.inr ⟨_, rfl, h⟩
  | wait hi' hf =>
    cases hi.symm.trans hi'
    cases hf
  | jump hi' | save hi' => cases hi.symm.trans hi'

theorem of_save (hi : p.body[q]? = some (.save slot))
    (h : p.Approach free offset q slots entered choices target saved) :
    p.Approach free offset (q + 1) (slots.setIfInBounds slot (some offset)) (q :: entered) choices
      target saved := by
  cases h with
  | save hi' _ _ h =>
    cases hi.symm.trans hi'
    exact h
  | wait hi' hf =>
    cases hi.symm.trans hi'
    cases hf
  | jump hi' | first hi' | second hi' => cases hi.symm.trans hi'

end Approach

namespace Arrivals

variable {fst snd slot t : Nat} {added added₁ added₂ : List (List Bool × Thread)}

theorem nil : p.Arrivals free offset q slots entered [] := ⟨.nil, by simp, by simp⟩

theorem wait (hi : p.body[q]? = some i) (hf : i.follow ⟨q, slots⟩ offset = none) (hfree : free q)
    (he : q ∉ entered) : p.Arrivals free offset q slots entered [([], ⟨q, slots⟩)] := by
  refine ⟨List.pairwise_singleton _ _, ?_, ?_⟩
  · rintro r hr
    obtain rfl := List.mem_singleton.1 hr
    exact .wait hi hf hfree he
  · rintro r hr choices saved h
    obtain rfl := List.mem_singleton.1 hr
    obtain ⟨rfl, -, rfl⟩ := h.of_wait hi hf
    exact Or.inr rfl

theorem jump (hi : p.body[q]? = some (.jump t)) (hfree : free q) (he : q ∉ entered)
    (h : p.Arrivals free offset t slots (q :: entered) added) :
    p.Arrivals free offset q slots entered added where
  ordered := h.ordered
  approach r hr := .jump hi hfree he (h.approach r hr)
  least r hr choices saved hway := h.least r hr choices saved (hway.of_jump hi)

theorem save (hi : p.body[q]? = some (.save slot)) (hfree : free q) (he : q ∉ entered)
    (h : p.Arrivals free offset (q + 1) (slots.setIfInBounds slot (some offset)) (q :: entered)
      added) :
    p.Arrivals free offset q slots entered added where
  ordered := h.ordered
  approach r hr := .save hi hfree he (h.approach r hr)
  least r hr choices saved hway := h.least r hr choices saved (hway.of_save hi)

/-- What comes by the second target comes later, and it comes to an instruction that no way over the
first one leads to. -/
theorem split (hi : p.body[q]? = some (.split fst snd)) (hfree : free q) (he : q ∉ entered)
    (h₁ : p.Arrivals free offset fst slots (q :: entered) added₁)
    (h₂ : p.Arrivals free offset snd slots (q :: entered) added₂)
    (hapart : ∀ r ∈ added₂, ∀ choices saved,
      ¬ p.Approach free offset fst slots (q :: entered) choices r.2.position saved) :
    p.Arrivals free offset q slots entered
      (added₁.map (fun r => (false :: r.1, r.2)) ++ added₂.map (fun r => (true :: r.1, r.2))) := by
  refine ⟨?_, ?_, ?_⟩
  · rw [List.pairwise_append, List.pairwise_map, List.pairwise_map]
    refine ⟨h₁.ordered.imp fun h => ?_, h₂.ordered.imp fun h => ?_, fun r hr r' hr' => ?_⟩
    · exact List.cons_lt_cons_self.2 h
    · exact List.cons_lt_cons_self.2 h
    · obtain ⟨r, -, rfl⟩ := List.mem_map.1 hr
      obtain ⟨r', -, rfl⟩ := List.mem_map.1 hr'
      exact List.cons_lt_cons_iff.2 (Or.inl Bool.false_lt_true)
  · intro r hr
    rw [List.mem_append, List.mem_map, List.mem_map] at hr
    rcases hr with ⟨r, hr, rfl⟩ | ⟨r, hr, rfl⟩
    · exact .first hi hfree he (h₁.approach r hr)
    · exact .second hi hfree he (h₂.approach r hr)
  · intro r hr choices saved hway
    rw [List.mem_append, List.mem_map, List.mem_map] at hr
    rcases hr with ⟨r, hr, rfl⟩ | ⟨r, hr, rfl⟩ <;>
      rcases hway.of_split hi with ⟨rest, rfl, hrest⟩ | ⟨rest, rfl, hrest⟩
    · refine (h₁.least r hr rest saved hrest).imp List.cons_lt_cons_self.2 fun h => ?_
      obtain ⟨rfl, rfl⟩ := Prod.mk.inj h
      rfl
    · exact Or.inl (List.cons_lt_cons_iff.2 (Or.inl Bool.false_lt_true))
    · exact absurd hrest (hapart r hr rest saved)
    · refine (h₂.least r hr rest saved hrest).imp List.cons_lt_cons_self.2 fun h => ?_
      obtain ⟨rfl, rfl⟩ := Prod.mk.inj h
      rfl

end Arrivals

end Program

/-! ### What a recursive call leaves behind -/

namespace Scheduler

open Program

variable {free : Nat → Prop} {entered : List Nat} {q : Nat}

theorem Adds.after_eq (h : Adds p offset s threads thread s' threads') :
    s' = s.after offset [thread] := by
  have hwalk := (s.walk_eq_after offset threads [thread]).symm.trans h.walk_eq
  exact (congrArg Prod.fst hwalk).symm

theorem Adds.keeps_mark (h : Adds p offset s threads thread s' threads') (hq : s.Marked offset q) :
    s'.Marked offset q :=
  h.after_eq ▸ hq.after [thread]

/-- A thread that has been added has its instruction marked, unless it is dead. -/
theorem Adds.marked_position (h : Adds p offset s threads thread s' threads') :
    s'.Marked offset thread.position ∨ p.size ≤ thread.position := by
  cases h with
  | dead hd => exact Or.inr hd
  | marked hlt hm => exact Or.inl ⟨hlt, hm⟩
  | jump _ _ _ h => exact Or.inl (h.keeps_mark (marked_enter.2 (Or.inl rfl)))
  | split _ _ _ h₁ h₂ => exact Or.inl (h₂.keeps_mark (h₁.keeps_mark (marked_enter.2 (Or.inl rfl))))
  | save _ _ _ h => exact Or.inl (h.keeps_mark (marked_enter.2 (Or.inl rfl)))
  | wait => exact Or.inl (marked_enter.2 (Or.inl rfl))

/-- **Step.** Adding a thread leaves nothing open: what is marked by it leads to what is marked. -/
theorem Adds.closed (h : Adds p offset s threads thread s' threads')
    (hclosed : p.Closed free (s.Marked offset) entered) :
    p.Closed free (s'.Marked offset) entered := by
  induction h generalizing entered with
  | dead | marked => exact hclosed
  | jump hlt _ hi h ih =>
    refine (ih (hclosed.enter fun _ => marked_enter)).leave fun z hz => ?_
    rw [leads_iff (Array.getElem?_eq_some_iff.2 ⟨hlt, hi⟩) rfl, List.mem_singleton] at hz
    exact hz ▸ h.marked_position
  | split hlt _ hi h₁ h₂ ih₁ ih₂ =>
    refine (ih₂ (ih₁ (hclosed.enter fun _ => marked_enter))).leave fun z hz => ?_
    rw [leads_iff (Array.getElem?_eq_some_iff.2 ⟨hlt, hi⟩) rfl, List.mem_pair] at hz
    rcases hz with rfl | rfl
    · exact h₁.marked_position.imp_left h₂.keeps_mark
    · exact h₂.marked_position
  | save hlt _ hi h ih =>
    refine (ih (hclosed.enter fun _ => marked_enter)).leave fun z hz => ?_
    rw [leads_iff (Array.getElem?_eq_some_iff.2 ⟨hlt, hi⟩) rfl, List.mem_singleton] at hz
    exact hz ▸ h.marked_position
  | @wait s threads thread hlt _ hf =>
    refine (hclosed.enter fun _ => marked_enter).leave fun z hz => ?_
    exact absurd hz (not_leads (Array.getElem?_eq_getElem hlt)
      (Instruction.follow_eq_none_iff.1 hf))

/-- What a recursive call starts from: what has not been marked is free, and what has been marked
leads to what is marked too, except for the positions that are still entered. -/
structure Ready (p : Program) (free : Nat → Prop) (offset : Nat) (s : Scheduler p.size)
    (entered : List Nat) : Prop where
  free_of_not_marked : ∀ q, ¬ s.Marked offset q → free q
  marked_of_mem : ∀ q ∈ entered, s.Marked offset q
  closed : p.Closed free (s.Marked offset) entered

/-- An instruction that has not been admitted is not one of those entered. -/
theorem Ready.not_mem (h : Ready p free offset s entered) (hq : ¬ s.Marked offset q) :
    q ∉ entered := fun hmem => hq (h.marked_of_mem q hmem)

theorem Ready.enter (h : Ready p free offset s entered) (position : Fin p.size) :
    Ready p free offset (s.enter position offset) (position :: entered) where
  free_of_not_marked q hq := h.free_of_not_marked q fun hm => hq (marked_enter.2 (Or.inr hm))
  marked_of_mem := List.forall_mem_cons.2
    ⟨marked_enter.2 (Or.inl rfl), fun q hq => marked_enter.2 (Or.inr (h.marked_of_mem q hq))⟩
  closed := h.closed.enter fun _ => marked_enter

theorem Ready.of_adds (h : Ready p free offset s entered)
    (hadds : Adds p offset s threads thread s' threads') : Ready p free offset s' entered where
  free_of_not_marked q hq := h.free_of_not_marked q fun hm => hq (hadds.keeps_mark hm)
  marked_of_mem q hq := hadds.keeps_mark (h.marked_of_mem q hq)
  closed := hadds.closed h.closed

/-- **Step.** What is added to the threads arrives behind the thread that is added, at instructions
that have not been admitted before. -/
theorem Adds.exists_arrivals (h : Adds p offset s threads thread s' threads')
    (hready : Ready p free offset s entered) :
    ∃ added, threads'.toList = threads.toList ++ added.map Prod.snd ∧
      p.Arrivals free offset thread.position thread.slots entered added ∧
      ∀ r ∈ added, ¬ s.Marked offset r.2.position := by
  induction h generalizing entered with
  | dead | marked => exact ⟨[], by simp, .nil, by simp⟩
  | jump hlt hm hi _ ih =>
    have hnot := isMarked_eq_false_iff.1 hm
    obtain ⟨added, hthreads, harrivals, hfresh⟩ := ih (hready.enter _)
    refine ⟨added, hthreads, .jump (Array.getElem?_eq_some_iff.2 ⟨hlt, hi⟩)
      (hready.free_of_not_marked _ hnot) (hready.not_mem hnot) harrivals,
      fun r hr hq => hfresh r hr (marked_enter.2 (Or.inr hq))⟩
  | split hlt hm hi h₁ _ ih₁ ih₂ =>
    have hnot := isMarked_eq_false_iff.1 hm
    have hready₁ := hready.enter ⟨_, hlt⟩
    have hready₂ := hready₁.of_adds h₁
    obtain ⟨added₁, hthreads₁, harrivals₁, hfresh₁⟩ := ih₁ hready₁
    obtain ⟨added₂, hthreads₂, harrivals₂, hfresh₂⟩ := ih₂ hready₂
    refine ⟨_, ?_, .split (Array.getElem?_eq_some_iff.2 ⟨hlt, hi⟩)
      (hready.free_of_not_marked _ hnot) (hready.not_mem hnot)
      harrivals₁ harrivals₂ ?_, ?_⟩
    · simp [hthreads₁, hthreads₂, Function.comp_def]
    · -- All that ways over the first target lead to has been marked by then.
      intro r hr choices saved hway
      exact hfresh₂ r hr
        (hready₂.closed.marked_of_approach (fun _ h => h) h₁.marked_position hway)
    · simp only [List.forall_mem_append, List.forall_mem_map]
      exact ⟨fun r hr hq => hfresh₁ r hr (marked_enter.2 (Or.inr hq)),
        fun r hr hq => hfresh₂ r hr (h₁.keeps_mark (marked_enter.2 (Or.inr hq)))⟩
  | save hlt hm hi _ ih =>
    have hnot := isMarked_eq_false_iff.1 hm
    obtain ⟨added, hthreads, harrivals, hfresh⟩ := ih (hready.enter _)
    refine ⟨added, hthreads, .save (Array.getElem?_eq_some_iff.2 ⟨hlt, hi⟩)
      (hready.free_of_not_marked _ hnot) (hready.not_mem hnot) harrivals,
      fun r hr hq => hfresh r hr (marked_enter.2 (Or.inr hq))⟩
  | @wait s threads thread hlt hm hf =>
    have hnot := isMarked_eq_false_iff.1 hm
    refine ⟨[([], thread)], by simp, .wait (Array.getElem?_eq_getElem hlt) hf
      (hready.free_of_not_marked _ hnot) (hready.not_mem hnot), ?_⟩
    simpa using hnot

/-- Where a thread has to wait, one does after a walk that has marked the place. -/
theorem mem_reached_of_marked {i : Instruction} {stack : List Thread}
    (hi : p.body[q]? = some i) (hn : i.next? q = none)
    (h : (s.after offset stack).Marked offset q) :
    s.Marked offset q ∨ q ∈ (s.reached offset stack).map Thread.position := by
  induction s, stack using walkRecursion offset with
  | nil s => exact Or.inl (by rwa [after_nil] at h)
  | dead s thread rest hd ih =>
    rw [after_dead hd] at h
    rw [reached_dead hd]
    exact ih h
  | marked s thread rest hm ih =>
    rw [after_marked hm] at h
    rw [reached_marked hm]
    exact ih h
  | follow s thread rest next hlt hm hf ih₁ ih₂ =>
    rw [after_follow hlt hm hf] at h
    rw [reached_follow hlt hm hf, List.map_append, List.mem_append]
    rcases ih₂ h with h | h
    · rcases ih₁ h with h | h
      · -- The instruction that is followed is none where a thread waits.
        refine Or.inl ((marked_enter.1 h).resolve_left ?_)
        rintro rfl
        obtain rfl := Option.some.inj ((Array.getElem?_eq_getElem hlt).symm.trans hi)
        exact Option.some_ne_none _ ((Instruction.next?_of_follow hf).symm.trans hn)
      · exact Or.inr (Or.inl h)
    · exact Or.inr (Or.inr h)
  | wait s thread rest hlt hm hf ih =>
    rw [after_wait hlt hm hf] at h
    rw [reached_wait hlt hm hf, List.map_cons, List.mem_cons]
    rcases ih h with h | h
    · exact (marked_enter.1 h).elim (fun h => Or.inr (Or.inl h)) Or.inl
    · exact Or.inr (Or.inr h)

theorem Adds.map_eq_reached (h : Adds p offset s threads thread s' threads')
    {added : List (List Bool × Thread)}
    (hthreads : threads'.toList = threads.toList ++ added.map Prod.snd) :
    added.map Prod.snd = s.reached offset [thread] := by
  have hwalk := h.walk_eq.symm.trans (s.walk_eq_after offset threads [thread])
  have hlist : threads'.toList = threads.toList ++ s.reached offset [thread] := by
    simpa using congrArg (·.2.toList) hwalk
  exact List.append_cancel_left (hthreads.symm.trans hlist)

/-- The instructions where threads have been added: those where a thread waits that have not been
admitted before and are reached through others of the kind. -/
theorem Adds.mem_position_iff (h : Adds p offset s threads thread s' threads')
    {added : List (List Bool × Thread)}
    (hthreads : threads'.toList = threads.toList ++ added.map Prod.snd)
    (harrivals : p.Arrivals (¬ s.Marked offset ·) offset thread.position thread.slots [] added) :
    q ∈ added.map (·.2.position) ↔
      (∃ i, p.body[q]? = some i ∧ (i.consumes = true ∨ i = .accept)) ∧ ¬ s.Marked offset q ∧
        Relation.ReflTransGen (fun y z => ¬ s.Marked offset y ∧ p.Leads y z) thread.position q := by
  constructor
  · intro hq
    obtain ⟨r, hr, rfl⟩ := List.mem_map.1 hq
    have hway := harrivals.approach r hr
    obtain ⟨hnot, i, hi, hn⟩ := hway.exists_waits
    exact ⟨⟨i, hi, Instruction.next?_eq_none_iff.1 hn⟩, hnot, hway.reaches⟩
  · rintro ⟨⟨i, hi, hwaits⟩, hnot, hreach⟩
    have hclosed : p.Closed (¬ s.Marked offset ·) (s'.Marked offset) [] :=
      h.closed fun q hq hfree => absurd hq hfree
    have hmarked : s'.Marked offset q :=
      (hclosed.marked_of_reaches h.marked_position hreach).resolve_right
        (Nat.not_le.2 (exists_getElem_body hi).1)
    rw [h.after_eq] at hmarked
    have hreached := (mem_reached_of_marked hi (Instruction.next?_eq_none_iff.2 hwaits)
      hmarked).resolve_left hnot
    rwa [← h.map_eq_reached hthreads, List.map_map] at hreached

/-- Scheduling a thread with a stack, following it instruction by instruction, comes to its end with
nothing left on the stack, and with the scheduler and the threads that the recursive definition
gives. What it adds to the threads are those that wait at instructions not admitted before and
reached through such instructions, each once, in the order of the choices that lead there. -/
theorem walk_eq_recursion (p : Program) (offset : Nat) (s : Scheduler p.size)
    (threads : Array Thread) (thread : Thread) :
    let result := s.walk p offset threads [thread]
    (∃ n ≤ 3 * s.unmarked offset + 2,
      (Walk.step p offset)^[n] ⟨s, threads, none, [thread]⟩ = ⟨result.1, result.2, none, []⟩) ∧
    (∀ s' threads', Adds p offset s threads thread s' threads' ↔ (s', threads') = result) ∧
    ∃ added : List (List Bool × Thread),
      result.2.toList = threads.toList ++ added.map Prod.snd ∧
      p.Arrivals (¬ s.Marked offset ·) offset thread.position thread.slots [] added ∧
      (added.map (·.2.position)).Nodup ∧
      ∀ q, q ∈ added.map (·.2.position) ↔
        (∃ i, p.body[q]? = some i ∧ (i.consumes = true ∨ i = .accept)) ∧ ¬ s.Marked offset q ∧
          Relation.ReflTransGen (fun y z => ¬ s.Marked offset y ∧ p.Leads y z)
            thread.position q := by
  intro result
  have hadds : Adds p offset s threads thread result.1 result.2 := adds_iff_walk_eq.2 rfl
  have hready : Ready p (¬ s.Marked offset ·) offset s [] :=
    ⟨fun _ h => h, by simp, fun q hq hfree => absurd hq hfree⟩
  obtain ⟨added, hthreads, harrivals, -⟩ := hadds.exists_arrivals hready
  refine ⟨?_, fun s' threads' => adds_iff_walk_eq.trans eq_comm, added, hthreads, harrivals, ?_,
    fun q => hadds.mem_position_iff hthreads harrivals⟩
  · obtain ⟨n, hn, hiterate⟩ := Walk.exists_iterate_step offset
      ⟨s, threads, none, [thread]⟩
    exact ⟨n, by simpa [Walk.measure] using hn, hiterate⟩
  · have hnodup := (s.sublist_admits offset [thread]).nodup
      ((s.nodup_admits offset [thread]).1.map Fin.val_injective)
    rwa [← hadds.map_eq_reached hthreads, List.map_map] at hnodup

end Scheduler

end Lockstep
