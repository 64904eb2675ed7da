import Lockstep.Pattern.Backtracking
import Lockstep.Proofs.Machine.DepthFirst
import Lockstep.Proofs.Program.Implements
import Mathlib.Logic.Relation

/-!
# Programs that do not loop in place

The exploration carries the positions that it has entered at the current offset, so as not to go
round in circles. Where no circle can be entered without consuming something, they have no
influence, and the exploration satisfies the equations of a plain backtracking search.

* `Program.Leads`: a step that consumes nothing; `Program.Grounded`: only finitely many such steps
  follow one another.
* `Program.explore_congr`: only positions that can be reached matter among those entered.
* `Program.search`: the exploration in the situation of an attempt, with one equation for each kind
  of instruction.
-/

namespace Lockstep

namespace Program

variable {p : Program} {cells : List Cell} {offset q : Nat} {thread : Thread}
  {entered entered' : List Nat} {i : Instruction}

/-- A thread at `y` can go to `z` without consuming anything. -/
def Leads (p : Program) (y z : Nat) : Prop :=
  ∃ i next, p.body[y]? = some i ∧ i.next? y = some next ∧ z ∈ next

/-- There is no endless row of steps from `q` that consume nothing. -/
def Grounded (p : Program) (q : Nat) : Prop := Acc (fun z y => p.Leads y z) q

/-! ### Grounded positions -/

theorem grounded_of_next {next : List Nat} (hi : p.body[q]? = some i)
    (hn : i.next? q = some next) (h : ∀ z ∈ next, p.Grounded z) : p.Grounded q := by
  refine Acc.intro q ?_
  rintro z ⟨i', next', hi', hn', hz⟩
  obtain rfl := Option.some.inj (hi.symm.trans hi')
  obtain rfl := Option.some.inj (hn.symm.trans hn')
  exact h z hz

theorem grounded_of_wait (hi : p.body[q]? = some i) (hn : i.next? q = none) : p.Grounded q := by
  refine Acc.intro q ?_
  rintro z ⟨i', next, hi', hn', -⟩
  obtain rfl := Option.some.inj (hi.symm.trans hi')
  rw [hn] at hn'
  cases hn'

theorem grounded_of_size_le (h : p.size ≤ q) : p.Grounded q := by
  refine Acc.intro q ?_
  rintro z ⟨i, next, hi, -⟩
  exact absurd (exists_getElem_body hi).1 (Nat.not_lt.2 h)

theorem grounded_of_jump {target : Nat} (hi : p.body[q]? = some (.jump target))
    (h : p.Grounded target) : p.Grounded q :=
  grounded_of_next hi rfl (by simpa using h)

theorem grounded_of_save {slot : Nat} (hi : p.body[q]? = some (.save slot))
    (h : p.Grounded (q + 1)) : p.Grounded q :=
  grounded_of_next hi rfl (by simpa using h)

theorem grounded_of_split {fst snd : Nat} (hi : p.body[q]? = some (.split fst snd))
    (h₁ : p.Grounded fst) (h₂ : p.Grounded snd) : p.Grounded q :=
  grounded_of_next hi rfl (by simp [h₁, h₂])

theorem grounded_of_decide {greedy : Bool} {again onwards : Nat}
    (hi : p.body[q]? = some (.decide greedy again onwards))
    (h₁ : p.Grounded again) (h₂ : p.Grounded onwards) : p.Grounded q := by
  cases greedy with
  | true => exact grounded_of_split hi h₁ h₂
  | false => exact grounded_of_split hi h₂ h₁

/-- A grounded position is not reached again without consuming anything. -/
theorem Grounded.not_transGen (h : p.Grounded q) : ¬ Relation.TransGen p.Leads q q := by
  induction h with
  | intro q _ ih =>
    intro hq
    obtain ⟨z, hqz, hzq⟩ := Relation.TransGen.head'_iff.1 hq
    exact ih z hqz (.tail' hzq hqz)

/-! ### Positions that have been entered -/

/-- Only positions that can be reached matter among those that have been entered. -/
theorem explore_congr
    (h : ∀ z, Relation.ReflTransGen p.Leads thread.position z → (z ∈ entered ↔ z ∈ entered')) :
    p.explore cells offset thread entered = p.explore cells offset thread entered' := by
  induction cells, offset, thread, entered using exploreInduction (p := p)
    generalizing entered' with
  | dead cells offset thread entered hd => rw [explore_dead hd, explore_dead hd]
  | entered cells offset thread entered he =>
    rw [explore_entered he, explore_entered ((h _ .refl).1 he)]
  | follow cells offset thread entered i next hi he hf ih =>
    rw [explore_follow hi he hf, explore_follow hi (fun he' => he ((h _ .refl).2 he')) hf]
    refine List.flatMap_congr fun t ht => ih t ht fun z hz => ?_
    have hlead : p.Leads thread.position t.position :=
      ⟨i, _, hi, Instruction.next?_of_follow hf, List.mem_map_of_mem ht⟩
    rw [List.mem_cons, List.mem_cons, h z (.head hlead hz)]
  | accept cells offset thread entered hi he =>
    rw [explore_accept hi he, explore_accept hi fun he' => he ((h _ .refl).2 he')]
  | consume cell rest offset thread entered i hi he ha ih =>
    rw [explore_consume hi he ha, explore_consume hi (fun he' => he ((h _ .refl).2 he')) ha]
  | stop cells offset thread entered i hi he hn hne hc =>
    rw [explore_stop hi hn hne hc, explore_stop hi hn hne hc]

/-- The branches behind an instruction that does not come back are explored independently. -/
theorem Grounded.explore_follow {next : List Thread} (h : p.Grounded thread.position)
    (hi : p.body[thread.position]? = some i) (hf : i.follow thread offset = some next) :
    p.explore cells offset thread [] = next.flatMap (p.explore cells offset · []) := by
  rw [Program.explore_follow hi List.not_mem_nil hf]
  refine List.flatMap_congr fun t ht => explore_congr fun z hz => ?_
  have hlead : p.Leads thread.position t.position :=
    ⟨i, _, hi, Instruction.next?_of_follow hf, List.mem_map_of_mem ht⟩
  refine iff_of_false (fun hmem => ?_) List.not_mem_nil
  rw [List.mem_singleton] at hmem
  exact h.not_transGen (.head' hlead (hmem ▸ hz))

/-! ### The search from an attempt -/

/-- The matches found from a position in the situation of an attempt. -/
def search (p : Program) (q : Nat) (a : Attempt) : List Found :=
  p.explore a.rest a.offset ⟨q, a.slots⟩ []

variable {a : Attempt}

theorem search_accept (hi : p.body[q]? = some .accept) : p.search q a = [⟨a.offset, a.slots⟩] :=
  explore_accept hi List.not_mem_nil

theorem search_jump {target : Nat} (h : p.Grounded q) (hi : p.body[q]? = some (.jump target)) :
    p.search q a = p.search target a := by
  unfold search
  rw [h.explore_follow hi rfl, List.flatMap_singleton]

theorem search_save {slot : Nat} (h : p.Grounded q) (hi : p.body[q]? = some (.save slot)) :
    p.search q a = p.search (q + 1) (a.save slot) := by
  unfold search
  rw [h.explore_follow hi rfl, List.flatMap_singleton]
  rfl

theorem search_split {fst snd : Nat} (h : p.Grounded q) (hi : p.body[q]? = some (.split fst snd)) :
    p.search q a = p.search fst a ++ p.search snd a := by
  unfold search
  rw [h.explore_follow hi rfl]
  simp

theorem search_decide {greedy : Bool} {again onwards : Nat} (h : p.Grounded q)
    (hi : p.body[q]? = some (.decide greedy again onwards)) :
    p.search q a = if greedy then p.search again a ++ p.search onwards a
      else p.search onwards a ++ p.search again a := by
  cases greedy with
  | true => exact search_split h hi
  | false => exact search_split h hi

theorem search_atom {atom : Atom} (hi : p.body[q]? = some atom.instruction) :
    p.search q a = (a.consume atom).flatMap (p.search (q + 1)) := by
  have hstop (cells : List Cell) (offset : Nat) (slots : Slots)
      (h : ∀ cell ∈ cells.head?, atom.instruction.accepts cell.char = false) :
      p.search q ⟨cells, offset, slots⟩ = [] :=
    explore_stop hi (atom.next?_instruction q) atom.instruction_ne_accept h
  obtain ⟨cells, offset, slots⟩ := a
  cases cells with
  | nil => exact hstop [] offset slots (by simp)
  | cons cell rest =>
    cases ha : atom.accepts cell.char with
    | true =>
      rw [← atom.accepts_instruction] at ha
      unfold search
      rw [explore_consume hi List.not_mem_nil ha]
      simp [Attempt.consume, ← atom.accepts_instruction, ha]
    | false =>
      rw [← atom.accepts_instruction] at ha
      rw [hstop _ _ _ (by simpa using ha)]
      simp [Attempt.consume, ← atom.accepts_instruction, ha]

end Program

end Lockstep
