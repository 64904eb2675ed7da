import Lockstep.Machine.Path
import Lockstep.Proofs.Machine.Walk
import Mathlib.Data.Finset.Card

/-!
# Depth-first exploration

All accepting paths of a thread, listed by trying the first target of every `split` before the
second. Nothing is shared between the branches: each carries the positions that it has entered at
the current offset, as a path does, so the list is as long as there are paths.

* `Program.explore`: the matches at the ends of the accepting paths, in order, with one equation for
  each kind of instruction.
* `Program.explore_eq_nil_of_position_eq`: whether a thread finds anything does not depend on its
  slots.
* `Program.exists_runs`: the list goes through the paths in the order of their choices.
* `Program.head?_explore_eq_some_iff`: the first match is that of the path with the least choices.
-/

namespace Lockstep

namespace Program

variable {p : Program} {cells : List Cell} {offset : Nat} {thread : Thread} {entered : List Nat}
  {i : Instruction}

/-- The positions of a program that have not been entered. -/
def fresh (p : Program) (entered : List Nat) : Finset Nat :=
  {q ∈ Finset.range p.size | q ∉ entered}

theorem card_fresh_cons_lt {q : Nat} (h : q < p.size) (hq : q ∉ entered) :
    (p.fresh (q :: entered)).card < (p.fresh entered).card := by
  refine Finset.card_lt_card ⟨fun r hr => ?_, fun hle => ?_⟩
  · simp only [fresh, Finset.mem_filter, List.mem_cons, not_or] at hr ⊢
    exact ⟨hr.1, hr.2.2⟩
  · have hmem : q ∈ p.fresh (q :: entered) := hle (by simp [fresh, h, hq])
    simp [fresh] at hmem

/-- The matches at the ends of the accepting paths of a thread, in order of priority. -/
def explore (p : Program) (cells : List Cell) (offset : Nat) (thread : Thread)
    (entered : List Nat) : List Found :=
  if h : thread.position < p.size then
    if he : thread.position ∈ entered then []
    else
      match p.body[thread.position].follow thread offset with
      | some next =>
        next.flatMap fun t => explore p cells offset t (thread.position :: entered)
      | none =>
        if p.body[thread.position] = .accept then [⟨offset, thread.slots⟩]
        else
          match cells with
          | [] => []
          | cell :: rest =>
            if p.body[thread.position].accepts cell.char then
              explore p rest (offset + cell.width) ⟨thread.position + 1, thread.slots⟩ []
            else []
  else []
  termination_by (cells.length, (p.fresh entered).card)
  decreasing_by
    · exact Prod.Lex.right _ (card_fresh_cons_lt h he)
    · exact Prod.Lex.left _ _ (Nat.lt_succ_self _)

/-! ### One equation for each kind of instruction -/

theorem exists_getElem_body {q : Nat} (hi : p.body[q]? = some i) :
    ∃ h : q < p.size, p.body[q] = i := Array.getElem?_eq_some_iff.1 hi

/-- A thread outside the program finds nothing. -/
theorem explore_dead (h : p.size ≤ thread.position) :
    p.explore cells offset thread entered = [] := by
  rw [explore, dif_neg (Nat.not_lt.2 h)]

/-- A thread that comes back to where it was at the same offset finds nothing. -/
theorem explore_entered (h : thread.position ∈ entered) :
    p.explore cells offset thread entered = [] := by
  rw [explore]
  by_cases hlt : thread.position < p.size
  · rw [dif_pos hlt, dif_pos h]
  · rw [dif_neg hlt]

/-- The branches behind an instruction that is followed are explored one after the other. -/
theorem explore_follow {next : List Thread} (hi : p.body[thread.position]? = some i)
    (he : thread.position ∉ entered) (hf : i.follow thread offset = some next) :
    p.explore cells offset thread entered =
      next.flatMap (p.explore cells offset · (thread.position :: entered)) := by
  obtain ⟨h, rfl⟩ := exists_getElem_body hi
  rw [explore, dif_pos h, dif_neg he, hf]

theorem explore_accept (hi : p.body[thread.position]? = some .accept)
    (he : thread.position ∉ entered) :
    p.explore cells offset thread entered = [⟨offset, thread.slots⟩] := by
  obtain ⟨h, hi⟩ := exists_getElem_body hi
  rw [explore, dif_pos h, dif_neg he, hi]
  simp [Instruction.follow]

/-- A thread goes on behind a cell that its instruction consumes. -/
theorem explore_consume {cell : Cell} {rest : List Cell} (hi : p.body[thread.position]? = some i)
    (he : thread.position ∉ entered) (ha : i.accepts cell.char = true) :
    p.explore (cell :: rest) offset thread entered =
      p.explore rest (offset + cell.width) ⟨thread.position + 1, thread.slots⟩ [] := by
  obtain ⟨h, rfl⟩ := exists_getElem_body hi
  have hf : p.body[thread.position].follow thread offset = none :=
    Instruction.follow_eq_none_iff.2 (Instruction.next?_of_accepts ha thread.position)
  rw [explore, dif_pos h, dif_neg he, hf]
  simp [Instruction.ne_accept_of_accepts ha, ha]

/-- A thread that waits for a cell that does not come finds nothing. -/
theorem explore_stop (hi : p.body[thread.position]? = some i)
    (hn : i.next? thread.position = none) (hne : i ≠ .accept)
    (hc : ∀ cell ∈ cells.head?, i.accepts cell.char = false) :
    p.explore cells offset thread entered = [] := by
  obtain ⟨h, rfl⟩ := exists_getElem_body hi
  by_cases he : thread.position ∈ entered
  · exact explore_entered he
  · rw [explore, dif_pos h, dif_neg he, Instruction.follow_eq_none_iff.2 hn]
    cases cells with
    | nil => simp [hne]
    | cons cell rest => simp [hne, hc cell rfl]

/-- The induction that follows the exploration. -/
theorem exploreInduction {motive : List Cell → Nat → Thread → List Nat → Prop}
    (dead : ∀ cells offset thread entered, p.size ≤ thread.position →
      motive cells offset thread entered)
    (entered : ∀ cells offset thread entered, thread.position ∈ entered →
      motive cells offset thread entered)
    (follow : ∀ cells offset thread entered i next, p.body[thread.position]? = some i →
      thread.position ∉ entered → i.follow thread offset = some next →
      (∀ t ∈ next, motive cells offset t (thread.position :: entered)) →
      motive cells offset thread entered)
    (accept : ∀ cells offset thread entered, p.body[thread.position]? = some .accept →
      thread.position ∉ entered → motive cells offset thread entered)
    (consume : ∀ cell rest offset thread entered i, p.body[thread.position]? = some i →
      thread.position ∉ entered → i.accepts cell.char = true →
      motive rest (offset + cell.width) ⟨thread.position + 1, thread.slots⟩ [] →
      motive (cell :: rest) offset thread entered)
    (stop : ∀ cells offset thread entered i, p.body[thread.position]? = some i →
      thread.position ∉ entered → i.next? thread.position = none → i ≠ .accept →
      (∀ cell ∈ cells.head?, i.accepts cell.char = false) →
      motive cells offset thread entered)
    (cells : List Cell) (offset : Nat) (thread : Thread) (passed : List Nat) :
    motive cells offset thread passed := by
  induction cells, offset, thread, passed using explore.induct p with
  | case1 cells offset thread passed h he => exact entered _ _ _ _ he
  | case2 cells offset thread passed h he next hf ih =>
    exact follow _ _ _ _ _ next (Array.getElem?_eq_getElem h) he hf fun t _ => ih t
  | case3 cells offset thread passed h he hf ha =>
    exact accept _ _ _ _ (ha ▸ Array.getElem?_eq_getElem h) he
  | case4 offset thread passed h he hf hne =>
    exact stop _ _ _ _ _ (Array.getElem?_eq_getElem h) he
      (Instruction.follow_eq_none_iff.1 hf) hne (by simp)
  | case5 offset thread passed h he hf hne cell rest ha ih =>
    exact consume _ _ _ _ _ _ (Array.getElem?_eq_getElem h) he ha ih
  | case6 offset thread passed h he hf hne cell rest ha =>
    exact stop _ _ _ _ _ (Array.getElem?_eq_getElem h) he
      (Instruction.follow_eq_none_iff.1 hf) hne (by
        rintro _ ⟨⟩
        exact Bool.not_eq_true _ ▸ ha)
  | case7 cells offset thread passed h => exact dead _ _ _ _ (Nat.not_lt.1 h)

/-! ### Slots do not matter for whether a match is found -/

/-- Threads at one position that differ in their slots find something or find nothing together. -/
theorem explore_eq_nil_of_position_eq {thread' : Thread}
    (h : p.explore cells offset thread entered = [])
    (hp : thread'.position = thread.position) :
    p.explore cells offset thread' entered = [] := by
  induction cells, offset, thread, entered using exploreInduction (p := p)
    generalizing thread' with
  | dead cells offset thread entered hd => exact explore_dead (hp ▸ hd)
  | entered cells offset thread entered he => exact explore_entered (hp ▸ he)
  | follow cells offset thread entered i next hi he hf ih =>
    rw [← hp] at hi he
    have hnext := Instruction.next?_of_follow hf
    rw [← hp, ← i.map_follow thread' offset, Option.map_eq_some_iff] at hnext
    obtain ⟨next', hf', hpos⟩ := hnext
    rw [explore_follow (hp ▸ hi) (hp ▸ he) hf, List.flatMap_eq_nil_iff] at h
    rw [explore_follow hi he hf', List.flatMap_eq_nil_iff]
    intro t' ht'
    obtain ⟨t, ht, heq⟩ := List.mem_map.1 (hpos ▸ List.mem_map_of_mem ht')
    rw [hp]
    exact ih t ht (h t ht) heq.symm
  | accept cells offset thread entered hi he => simp [explore_accept hi he] at h
  | consume cell rest offset thread entered i hi he ha ih =>
    rw [explore_consume hi he ha] at h
    rw [explore_consume (hp ▸ hi) (hp ▸ he) ha]
    exact ih h (congrArg (· + 1) hp)
  | stop cells offset thread entered i hi he hn hne hc =>
    exact explore_stop (hp ▸ hi) (hp ▸ hn) hne hc

end Program

/-! ### Paths -/

section Path

variable {p : Program} {cells : List Cell} {entered : List Nat} {i : Instruction}
  {offset position target fst snd slot finish : Nat} {slots saved : Slots} {choices : List Bool}

/-- A path starts at an instruction that has not been entered, and does not stop there. -/
theorem Path.exists_getElem
    (h : Path p cells offset position slots entered choices finish saved) :
    position ∉ entered ∧ ∃ i, p.body[position]? = some i ∧
      (i.next? position = none → i = .accept ∨ ∃ cell ∈ cells.head?, i.accepts cell.char) := by
  cases h with
  | accept hi he => exact ⟨he, _, hi, fun _ => Or.inl rfl⟩
  | jump hi he => exact ⟨he, _, hi, fun h => by cases h⟩
  | first hi he => exact ⟨he, _, hi, fun h => by cases h⟩
  | second hi he => exact ⟨he, _, hi, fun h => by cases h⟩
  | save hi he => exact ⟨he, _, hi, fun h => by cases h⟩
  | consume hi ha he => exact ⟨he, _, hi, fun _ => Or.inr ⟨_, rfl, ha⟩⟩

theorem path_accept_iff (hi : p.body[position]? = some .accept) (he : position ∉ entered) :
    Path p cells offset position slots entered choices finish saved ↔
      choices = [] ∧ finish = offset ∧ saved = slots := by
  constructor
  · intro h
    cases h with
    | accept => exact ⟨rfl, rfl, rfl⟩
    | jump hi' | first hi' | second hi' | save hi' => cases hi.symm.trans hi'
    | consume hi' ha =>
      cases hi.symm.trans hi'
      cases ha
  · rintro ⟨rfl, rfl, rfl⟩
    exact .accept hi he

theorem path_jump_iff (hi : p.body[position]? = some (.jump target)) (he : position ∉ entered) :
    Path p cells offset position slots entered choices finish saved ↔
      Path p cells offset target slots (position :: entered) choices finish saved := by
  constructor
  · intro h
    cases h with
    | jump hi' _ h =>
      cases hi.symm.trans hi'
      exact h
    | accept hi' | first hi' | second hi' | save hi' => cases hi.symm.trans hi'
    | consume hi' ha =>
      cases hi.symm.trans hi'
      cases ha
  · exact .jump hi he

theorem path_split_iff (hi : p.body[position]? = some (.split fst snd)) (he : position ∉ entered) :
    Path p cells offset position slots entered choices finish saved ↔
      (∃ rest, choices = false :: rest ∧
        Path p cells offset fst slots (position :: entered) rest finish saved) ∨
      ∃ rest, choices = true :: rest ∧
        Path p cells offset snd slots (position :: entered) rest finish saved := by
  constructor
  · intro h
    cases h with
    | first hi' _ h =>
      cases hi.symm.trans hi'
      exact Or.inl ⟨_, rfl, h⟩
    | second hi' _ h =>
      cases hi.symm.trans hi'
      exact Or.inr ⟨_, rfl, h⟩
    | accept hi' | jump hi' | save hi' => cases hi.symm.trans hi'
    | consume hi' ha =>
      cases hi.symm.trans hi'
      cases ha
  · rintro (⟨rest, rfl, h⟩ | ⟨rest, rfl, h⟩)
    · exact .first hi he h
    · exact .second hi he h

theorem path_save_iff (hi : p.body[position]? = some (.save slot)) (he : position ∉ entered) :
    Path p cells offset position slots entered choices finish saved ↔
      Path p cells offset (position + 1) (slots.setIfInBounds slot (some offset))
        (position :: entered) choices finish saved := by
  constructor
  · intro h
    cases h with
    | save hi' _ h =>
      cases hi.symm.trans hi'
      exact h
    | accept hi' | jump hi' | first hi' | second hi' => cases hi.symm.trans hi'
    | consume hi' ha =>
      cases hi.symm.trans hi'
      cases ha
  · exact .save hi he

theorem path_consume_iff {cell : Cell} {rest : List Cell} (hi : p.body[position]? = some i)
    (he : position ∉ entered) (ha : i.accepts cell.char = true) :
    Path p (cell :: rest) offset position slots entered choices finish saved ↔
      Path p rest (offset + cell.width) (position + 1) slots [] choices finish saved := by
  constructor
  · intro h
    cases h with
    | consume _ _ _ h => exact h
    | accept hi' | jump hi' | first hi' | second hi' | save hi' =>
      -- Only an instruction that consumes something accepts a character.
      cases hi.symm.trans hi'
      cases ha
  · exact .consume hi ha he

end Path

variable {p : Program} {cells : List Cell} {offset : Nat} {thread : Thread} {entered : List Nat}

/-- The exploration goes through the accepting paths of a thread in the order of their choices. -/
theorem Program.exists_runs (p : Program) (cells : List Cell) (offset : Nat) (thread : Thread)
    (entered : List Nat) :
    ∃ runs : List (List Bool × Found),
      runs.map Prod.snd = p.explore cells offset thread entered ∧
      runs.Pairwise (fun r r' => r.1 < r'.1) ∧
      ∀ choices f, (choices, f) ∈ runs ↔
        Path p cells offset thread.position thread.slots entered choices f.finish f.slots := by
  induction cells, offset, thread, entered using Program.exploreInduction (p := p) with
  | dead cells offset thread entered hd =>
    refine ⟨[], by rw [Program.explore_dead hd, List.map_nil], .nil, fun choices f => ?_⟩
    refine iff_of_false List.not_mem_nil fun h => ?_
    obtain ⟨-, i, hi, -⟩ := h.exists_getElem
    exact Nat.not_lt.2 hd (Program.exists_getElem_body hi).1
  | entered cells offset thread entered he =>
    refine ⟨[], by rw [Program.explore_entered he, List.map_nil], .nil, fun choices f => ?_⟩
    exact iff_of_false List.not_mem_nil fun h => h.exists_getElem.1 he
  | follow cells offset thread entered i next hi he hf ih =>
    cases i with
    | jump target =>
      obtain rfl : [⟨target, thread.slots⟩] = next := Option.some.inj hf
      obtain ⟨runs, hmap, hlt, hmem⟩ := ih _ (List.mem_singleton_self _)
      refine ⟨runs, ?_, hlt, fun choices f => ?_⟩
      · rw [Program.explore_follow hi he hf, hmap, List.flatMap_singleton]
      · rw [path_jump_iff hi he, hmem]
    | split fst snd =>
      obtain rfl : [⟨fst, thread.slots⟩, ⟨snd, thread.slots⟩] = next := Option.some.inj hf
      -- The paths over the first target all come before those over the second.
      obtain ⟨runs₁, hmap₁, hlt₁, hmem₁⟩ := ih ⟨fst, thread.slots⟩ (by simp)
      obtain ⟨runs₂, hmap₂, hlt₂, hmem₂⟩ := ih ⟨snd, thread.slots⟩ (by simp)
      refine ⟨runs₁.map (fun r => (false :: r.1, r.2)) ++ runs₂.map (fun r => (true :: r.1, r.2)),
        ?_, ?_, fun choices f => ?_⟩
      · rw [Program.explore_follow hi he hf]
        simp [Function.comp_def, ← hmap₁, ← hmap₂]
      · rw [List.pairwise_append, List.pairwise_map, List.pairwise_map]
        refine ⟨hlt₁.imp fun h => ?_, hlt₂.imp fun h => ?_, fun r hr r' hr' => ?_⟩
        · exact List.cons_lt_cons_self.2 h
        · exact List.cons_lt_cons_self.2 h
        · obtain ⟨r, -, rfl⟩ := List.mem_map.1 hr
          obtain ⟨r', -, rfl⟩ := List.mem_map.1 hr'
          exact List.cons_lt_cons_iff.2 (Or.inl Bool.false_lt_true)
      · rw [path_split_iff hi he, List.mem_append, List.mem_map, List.mem_map]
        simp [← hmem₁, ← hmem₂, and_comm, eq_comm]
    | save slot =>
      obtain rfl : [⟨thread.position + 1, thread.slots.setIfInBounds slot (some offset)⟩] = next :=
        Option.some.inj hf
      obtain ⟨runs, hmap, hlt, hmem⟩ := ih _ (List.mem_singleton_self _)
      refine ⟨runs, ?_, hlt, fun choices f => ?_⟩
      · rw [Program.explore_follow hi he hf, hmap, List.flatMap_singleton]
      · rw [path_save_iff hi he, hmem]
    | _ => cases hf
  | accept cells offset thread entered hi he =>
    refine ⟨[([], ⟨offset, thread.slots⟩)], ?_, List.pairwise_singleton _ _, fun choices f => ?_⟩
    · rw [Program.explore_accept hi he, List.map_singleton]
    · rw [path_accept_iff hi he, List.mem_singleton, Prod.mk.injEq, Found.mk.injEq]
  | consume cell rest offset thread entered i hi he ha ih =>
    obtain ⟨runs, hmap, hlt, hmem⟩ := ih
    refine ⟨runs, ?_, hlt, fun choices f => ?_⟩
    · rw [Program.explore_consume hi he ha, hmap]
    · rw [path_consume_iff hi he ha, hmem]
  | stop cells offset thread entered i hi he hn hne hc =>
    refine ⟨[], by rw [Program.explore_stop hi hn hne hc, List.map_nil], .nil, fun choices f => ?_⟩
    refine iff_of_false List.not_mem_nil fun h => ?_
    obtain ⟨-, i', hi', hw⟩ := h.exists_getElem
    obtain rfl : i' = i := Option.some.inj (hi'.symm.trans hi)
    rcases hw hn with rfl | ⟨cell, hcell, ha⟩
    · exact hne rfl
    · exact Bool.false_ne_true ((hc cell hcell).symm.trans ha)

/-- A thread finds nothing just if it has no accepting path. -/
theorem Program.explore_eq_nil_iff :
    p.explore cells offset thread entered = [] ↔ ∀ choices finish saved,
      ¬ Path p cells offset thread.position thread.slots entered choices finish saved := by
  obtain ⟨runs, hmap, -, hmem⟩ := p.exists_runs cells offset thread entered
  rw [← hmap, List.map_eq_nil_iff, List.eq_nil_iff_forall_not_mem]
  constructor
  · intro h choices finish saved hpath
    exact h _ ((hmem choices ⟨finish, saved⟩).2 hpath)
  · rintro h ⟨choices, f⟩ hf
    exact h _ _ _ ((hmem choices f).1 hf)

/-- The first match of a thread is that of the accepting path with the least choices. -/
theorem Program.head?_explore_eq_some_iff {f : Found} :
    (p.explore cells offset thread entered).head? = some f ↔ ∃ choices,
      Path p cells offset thread.position thread.slots entered choices f.finish f.slots ∧
      ∀ choices' finish saved,
        Path p cells offset thread.position thread.slots entered choices' finish saved →
          choices < choices' ∨ (choices', finish, saved) = (choices, f.finish, f.slots) := by
  obtain ⟨runs, hmap, hlt, hmem⟩ := p.exists_runs cells offset thread entered
  rw [← hmap, List.head?_map, Option.map_eq_some_iff]
  cases runs with
  | nil =>
    refine iff_of_false (by simp) ?_
    rintro ⟨choices, hpath, -⟩
    exact List.not_mem_nil ((hmem choices f).2 hpath)
  | cons run runs =>
    rw [List.pairwise_cons] at hlt
    constructor
    · rintro ⟨_, ⟨⟩, rfl⟩
      refine ⟨run.1, (hmem run.1 run.2).1 List.mem_cons_self, fun choices' finish saved hpath => ?_⟩
      rcases List.mem_cons.1 ((hmem choices' ⟨finish, saved⟩).2 hpath) with rfl | h
      · exact Or.inr rfl
      · exact Or.inl (hlt.1 _ h)
    · rintro ⟨choices, hpath, hleast⟩
      refine ⟨run, rfl, ?_⟩
      rcases List.mem_cons.1 ((hmem choices f).2 hpath) with rfl | h
      · rfl
      · have hrun := hlt.1 _ h
        rcases hleast _ _ _ ((hmem run.1 run.2).1 List.mem_cons_self) with hless | heq
        · exact absurd (List.lt_trans hrun hless) (List.lt_irrefl _)
        · exact absurd ((congrArg Prod.fst heq) ▸ hrun) (List.lt_irrefl _)

end Lockstep
