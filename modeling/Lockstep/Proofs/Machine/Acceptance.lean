import Lockstep.Proofs.Machine.DepthFirst
import Mathlib.Algebra.BigOperators.Group.List.Basic
import Mathlib.Algebra.GroupWithZero.Nat

/-!
# Acceptance

A program read as an automaton: which cells lead from a position to an instruction that accepts. A
thread may come back to a position at the same offset here, so that runs can be taken apart and put
together freely. The number of steps is kept, as the cells alone do not get fewer in a loop that
consumes nothing.

* `Program.Accepts`: acceptance in a given number of steps, with the cells left over.
* `Program.exists_accepts`: what the exploration finds is accepted.
* `Program.explore_ne_nil`: where something is accepted, the exploration finds something.

Coming back to a position is never needed to find a match: if nothing is found from there to begin
with, nothing is found the second time.
-/

namespace Lockstep

/-- The number of bytes that cells take. -/
def totalWidth (cells : List Cell) : Nat := (cells.map Cell.width).sum

@[simp] theorem totalWidth_cons (cell : Cell) (cells : List Cell) :
    totalWidth (cell :: cells) = cell.width + totalWidth cells := List.sum_cons

@[simp] theorem totalWidth_append (xs ys : List Cell) :
    totalWidth (xs ++ ys) = totalWidth xs + totalWidth ys := by
  rw [totalWidth, List.map_append, List.sum_append]
  rfl

namespace Program

/-- `Accepts p n cells q rest` says that a thread at `q` can accept after `n` steps over `cells`,
with `rest` left over. -/
inductive Accepts (p : Program) : Nat → List Cell → Nat → List Cell → Prop
  | accept {cells q} : p.body[q]? = some .accept → Accepts p 0 cells q cells
  | follow {n cells q rest i next z} : p.body[q]? = some i → i.next? q = some next → z ∈ next →
    Accepts p n cells z rest → Accepts p (n + 1) cells q rest
  | consume {n cell cells q rest i} : p.body[q]? = some i → i.accepts cell.char = true →
    Accepts p n cells (q + 1) rest → Accepts p (n + 1) (cell :: cells) q rest

variable {p : Program} {n q : Nat} {cells rest : List Cell} {i : Instruction}

/-! ### The last instruction and the first step -/

theorem Accepts.eq_of_accept (h : p.Accepts n cells q rest) (hi : p.body[q]? = some .accept) :
    rest = cells := by
  cases h with
  | accept _ => rfl
  | follow hi' hn =>
    obtain rfl := Option.some.inj (hi.symm.trans hi')
    cases hn
  | consume hi' ha =>
    obtain rfl := Option.some.inj (hi.symm.trans hi')
    cases ha

/-- The first step from an instruction that is followed. -/
theorem Accepts.of_follow {next : List Nat} (h : p.Accepts n cells q rest)
    (hi : p.body[q]? = some i) (hn : i.next? q = some next) :
    ∃ m < n, ∃ z ∈ next, p.Accepts m cells z rest := by
  cases h with
  | accept hi' =>
    obtain rfl := Option.some.inj (hi.symm.trans hi')
    cases hn
  | follow hi' hn' hz h =>
    obtain rfl := Option.some.inj (hi.symm.trans hi')
    obtain rfl := Option.some.inj (hn.symm.trans hn')
    exact ⟨_, Nat.lt_succ_self _, _, hz, h⟩
  | consume hi' ha =>
    obtain rfl := Option.some.inj (hi.symm.trans hi')
    rw [Instruction.next?_of_accepts ha] at hn
    cases hn

/-- The first step from an instruction that consumes. -/
theorem Accepts.of_consume (h : p.Accepts n cells q rest) (hi : p.body[q]? = some i)
    (hn : i.next? q = none) (hne : i ≠ .accept) :
    ∃ m < n, ∃ cell cells', cells = cell :: cells' ∧ i.accepts cell.char = true ∧
      p.Accepts m cells' (q + 1) rest := by
  cases h with
  | accept hi' => exact absurd (Option.some.inj (hi.symm.trans hi')) hne
  | follow hi' hn' =>
    obtain rfl := Option.some.inj (hi.symm.trans hi')
    rw [hn] at hn'
    cases hn'
  | consume hi' ha h =>
    obtain rfl := Option.some.inj (hi.symm.trans hi')
    exact ⟨_, Nat.lt_succ_self _, _, _, rfl, ha, h⟩

/-! ### Exploration and acceptance -/

variable {offset : Nat} {thread : Thread} {entered entered' : List Nat}

/-- What the exploration finds is accepted, and ends where the cells left over begin. -/
theorem exists_accepts {f : Found} (h : f ∈ p.explore cells offset thread entered) :
    ∃ n rest, p.Accepts n cells thread.position rest ∧
      f.finish + totalWidth rest = offset + totalWidth cells := by
  induction cells, offset, thread, entered using exploreInduction (p := p) with
  | dead cells offset thread entered hd =>
    rw [explore_dead hd] at h
    cases h
  | entered cells offset thread entered he =>
    rw [explore_entered he] at h
    cases h
  | follow cells offset thread entered i next hi he hf ih =>
    rw [explore_follow hi he hf, List.mem_flatMap] at h
    obtain ⟨t, ht, h⟩ := h
    obtain ⟨n, rest, hacc, hwidth⟩ := ih t ht h
    exact ⟨n + 1, rest, .follow hi (Instruction.next?_of_follow hf) (List.mem_map_of_mem ht) hacc,
      hwidth⟩
  | accept cells offset thread entered hi he =>
    rw [explore_accept hi he, List.mem_singleton] at h
    exact ⟨0, cells, .accept hi, by rw [h]⟩
  | consume cell rest offset thread entered i hi he ha ih =>
    rw [explore_consume hi he ha] at h
    obtain ⟨n, rest', hacc, hwidth⟩ := ih h
    exact ⟨n + 1, rest', .consume hi ha hacc, by rw [hwidth, totalWidth_cons, Nat.add_assoc]⟩
  | stop cells offset thread entered i hi he hn hne hc =>
    rw [explore_stop hi hn hne hc] at h
    cases h

/-- Nothing more is found when positions that lead nowhere have not been entered yet. -/
theorem explore_eq_nil_of_entered (h : p.explore cells offset thread entered = [])
    (hentered : ∀ q ∈ entered, q ∉ entered' → ∀ slots, p.explore cells offset ⟨q, slots⟩ [] = []) :
    p.explore cells offset thread entered' = [] := by
  induction cells, offset, thread, entered' using exploreInduction (p := p)
    generalizing entered with
  | dead cells offset thread entered' hd => exact explore_dead hd
  | entered cells offset thread entered' he => exact explore_entered he
  | follow cells offset thread entered' i next hi he hf ih =>
    rw [explore_follow hi he hf, List.flatMap_eq_nil_iff]
    intro t ht
    by_cases hmem : thread.position ∈ entered
    · -- Nothing is found from here without anything entered, so nothing is found behind it.
      have hnil := hentered _ hmem he thread.slots
      rw [explore_follow hi List.not_mem_nil hf, List.flatMap_eq_nil_iff] at hnil
      refine ih t ht (hnil t ht) fun q hq hq' => ?_
      exact absurd (List.mem_singleton.1 hq ▸ List.mem_cons_self) hq'
    · rw [explore_follow hi hmem hf, List.flatMap_eq_nil_iff] at h
      refine ih t ht (h t ht) fun q hq hq' => ?_
      rw [List.mem_cons, not_or] at hq'
      exact hentered q ((List.mem_cons.1 hq).resolve_left hq'.1) hq'.2
  | accept cells offset thread entered' hi he =>
    by_cases hmem : thread.position ∈ entered
    · have hnil := hentered _ hmem he thread.slots
      rw [explore_accept hi List.not_mem_nil] at hnil
      cases hnil
    · rw [explore_accept hi hmem] at h
      cases h
  | consume cell rest offset thread entered' i hi he ha ih =>
    rw [explore_consume hi he ha]
    by_cases hmem : thread.position ∈ entered
    · have hnil := hentered _ hmem he thread.slots
      rwa [explore_consume hi List.not_mem_nil ha] at hnil
    · rwa [explore_consume hi hmem ha] at h
  | stop cells offset thread entered' i hi he hn hne hc => exact explore_stop hi hn hne hc

/-- Where something is accepted, the exploration finds something. -/
theorem explore_ne_nil (h : p.Accepts n cells thread.position rest) (offset : Nat) :
    p.explore cells offset thread [] ≠ [] := by
  generalize hq : thread.position = q at h
  induction h generalizing offset thread with
  | accept hi => simp [explore_accept (hq ▸ hi) List.not_mem_nil]
  | @follow n cells q rest i next z hi hn hz h ih =>
    intro hnil
    subst hq
    rw [← Instruction.map_follow _ thread offset, Option.map_eq_some_iff] at hn
    obtain ⟨next, hf, rfl⟩ := hn
    obtain ⟨t, ht, rfl⟩ := List.mem_map.1 hz
    have hpassed : p.explore cells offset t [thread.position] = [] := by
      rw [explore_follow hi List.not_mem_nil hf, List.flatMap_eq_nil_iff] at hnil
      exact hnil t ht
    -- Coming back to where nothing is found does not help, so nothing is found behind it either.
    refine ih offset rfl (explore_eq_nil_of_entered hpassed fun q hq _ slots => ?_)
    exact explore_eq_nil_of_position_eq hnil (List.mem_singleton.1 hq)
  | consume hi ha h ih =>
    subst hq
    rw [explore_consume hi List.not_mem_nil ha]
    exact ih _ rfl

end Program

end Lockstep
