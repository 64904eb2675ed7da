import Lockstep.Machine.Relocation
import Lockstep.Proofs.Machine.Admission
import Lockstep.Proofs.Text.Conversion
import Mathlib.Data.List.Forall2
import Mathlib.Data.Option.Basic

/-!
# Two runs side by side

Two runs over cells with the same characters do the same at every step, whatever has been marked
before either of them, if their offsets correspond and if the instructions of their programs
correspond as well. What corresponds may differ: the offsets of one text are not those of another,
and the slots of two threads only have to stay related while instructions are followed.

* `Thread.Related`, `Found.Related`, `Visit.Related`, `Outcome.Related`: what threads and runs have
  in common, for a relation on offsets and one on slots.
* `Instruction.Simulates`, `Program.Simulates`: instructions that keep slots related.
* `Scheduler.Agree`: two schedulers know the same at a pair of offsets.
* `Program.Simulates.walk`: what a walk keeps; `Program.Simulates.runFrom`: what a run keeps.
* `Program.runFrom_eq_relocate`: a run over the same characters at other offsets.
* `Program.fst_runFrom`: a run does not depend on what its scheduler has been used for.
* `Program.size_slots_of_run`: the slots of a match.
-/

namespace Lockstep

variable {At : Nat → Nat → Prop} {R : Slots → Slots → Prop}

/-- Threads at one position with related slots. -/
structure Thread.Related (R : Slots → Slots → Prop) (t t' : Thread) : Prop where
  position_eq : t.position = t'.position
  slots : R t.slots t'.slots

/-- Matches with corresponding ends and related slots. -/
structure Found.Related (At : Nat → Nat → Prop) (R : Slots → Slots → Prop) (f f' : Found) :
    Prop where
  finish : At f.finish f'.finish
  slots : R f.slots f'.slots

/-- Visits of threads at the same positions, which accept with related slots if they do. -/
structure Visit.Related (At : Nat → Nat → Prop) (R : Slots → Slots → Prop) (v v' : Visit) :
    Prop where
  offset : At v.offset v'.offset
  positions_eq : v.positions = v'.positions
  accepted : Option.Rel R v.accepted v'.accepted

/-- Runs with the same visits, the same counts and the same match, up to offsets and slots. -/
structure Outcome.Related (At : Nat → Nat → Prop) (R : Slots → Slots → Prop) (o o' : Outcome) :
    Prop where
  found : Option.Rel (Found.Related At R) o.found o'.found
  visits : List.Forall₂ (Visit.Related At R) o.visits.toList o'.visits.toList
  peak_eq : o.peak = o'.peak
  work_eq : o.work = o'.work

section Related

variable {v v' : Visit}

/-- The match made in a visit, or else an earlier one. -/
theorem Visit.Related.or {found found' : Option Found} (h : v.Related At R v')
    (hfound : Option.Rel (Found.Related At R) found found') :
    Option.Rel (Found.Related At R) (v.found?.or found) (v'.found?.or found') := by
  obtain ⟨hat, -, haccepted⟩ := h
  rw [Visit.found?, Visit.found?]
  revert haccepted
  generalize v.accepted = slots
  generalize v'.accepted = slots'
  rintro (hR | _)
  · exact .some ⟨hat, hR⟩
  · exact hfound

theorem Visit.Related.push {visits visits' : Array Visit} (h : v.Related At R v')
    (hvisits : List.Forall₂ (Visit.Related At R) visits.toList visits'.toList) :
    List.Forall₂ (Visit.Related At R) (visits.push v).toList (visits'.push v').toList := by
  rw [Array.toList_push, Array.toList_push]
  exact List.rel_append hvisits (.cons h .nil)

end Related

/-- Instructions at position `q` that consume the same characters, and that lead threads with
related slots to the same positions, where their slots are related again. -/
structure Instruction.Simulates (At : Nat → Nat → Prop) (R : Slots → Slots → Prop) (q : Nat)
    (i i' : Instruction) : Prop where
  follow : ∀ {o o' slots slots'}, At o o' → R slots slots' →
    Option.Rel (List.Forall₂ (Thread.Related R)) (i.follow ⟨q, slots⟩ o) (i'.follow ⟨q, slots'⟩ o')
  accepts_eq : ∀ c, i.accepts c = i'.accepts c
  accept_iff : i = .accept ↔ i' = .accept

/-- Programs with corresponding instructions, whose first threads have related slots. -/
structure Program.Simulates (At : Nat → Nat → Prop) (R : Slots → Slots → Prop) (p p' : Program) :
    Prop where
  slots : R (Array.replicate p.slotCount none) (Array.replicate p'.slotCount none)
  instruction : ∀ q : Nat, Option.Rel (Instruction.Simulates At R q) p.body[q]? p'.body[q]?

namespace Instruction.Simulates

variable {q : Nat}

/-- An instruction that does not save corresponds to itself. -/
theorem of_ne_save {i : Instruction} (h : ∀ slot, i ≠ .save slot) : i.Simulates At R q i := by
  refine ⟨fun hat hR => ?_, fun c => rfl, Iff.rfl⟩
  cases i with
  | jump target => exact .some (.cons ⟨rfl, hR⟩ .nil)
  | split first second => exact .some (.cons ⟨rfl, hR⟩ (.cons ⟨rfl, hR⟩ .nil))
  | save slot => exact absurd rfl (h slot)
  | _ => exact .none

/-- Two instructions that save correspond if saving keeps slots related. -/
theorem save {k k' : Nat} (h : ∀ {o o' slots slots'}, At o o' → R slots slots' →
      R (slots.setIfInBounds k (some o)) (slots'.setIfInBounds k' (some o'))) :
    (Instruction.save k).Simulates At R q (.save k') :=
  ⟨fun hat hR => .some (.cons ⟨rfl, h hat hR⟩ .nil), fun _ => rfl, iff_of_false nofun nofun⟩

end Instruction.Simulates

/-- Every program corresponds to itself if saving an offset keeps slots related. -/
theorem Program.simulates_self {p : Program}
    (hslots : R (Array.replicate p.slotCount none) (Array.replicate p.slotCount none))
    (hsave : ∀ {o o' slots slots'} (k : Nat), At o o' → R slots slots' →
      R (slots.setIfInBounds k (some o)) (slots'.setIfInBounds k (some o'))) :
    p.Simulates At R p := by
  refine ⟨hslots, fun q => ?_⟩
  cases p.body[q]? with
  | none => exact .none
  | some i =>
    cases i with
    | save slot => exact .some (.save (hsave slot))
    | _ => exact .some (.of_ne_save nofun)

namespace Scheduler

variable {n n' : Nat} {s : Scheduler n} {s' : Scheduler n'} {o o' : Nat}

/-- Two schedulers know the same about the instructions, one at offset `o` and one at `o'`. -/
structure Agree (s : Scheduler n) (o : Nat) (s' : Scheduler n') (o' : Nat) : Prop where
  marked_iff : ∀ q, s.Marked o q ↔ s'.Marked o' q
  count_eq : s.count o = s'.count o'
  peak_eq : s.peak = s'.peak
  work_eq : s.work = s'.work

/-- Nothing has been admitted at the offsets behind `o`. -/
def FreshBehind (s : Scheduler n) (o : Nat) : Prop :=
  ∀ o₂, o < o₂ → s.count o₂ = 0 ∧ ∀ q, ¬ s.Marked o₂ q

theorem Agree.isMarked_eq_false {q q' : Nat} {hq : q < n} (h : s.Agree o s' o') (he : q = q')
    (hq' : q' < n') (hm : s.isMarked ⟨q, hq⟩ o = false) : s'.isMarked ⟨q', hq'⟩ o' = false := by
  subst he
  rw [isMarked_eq_false_iff] at hm ⊢
  exact mt (h.marked_iff q).2 hm

theorem Agree.enter {q q' : Nat} (h : s.Agree o s' o') (he : q = q') (hq : q < n) (hq' : q' < n') :
    (s.enter ⟨q, hq⟩ o).Agree o (s'.enter ⟨q', hq'⟩ o') o' := by
  subst he
  refine ⟨fun z => ?_, ?_, ?_, congrArg (· + 1) h.work_eq⟩
  · rw [marked_enter, marked_enter, h.marked_iff]
  · rw [count_enter, count_enter, h.count_eq]
  · rw [peak_enter, peak_enter, h.peak_eq, h.count_eq]

/-- Schedulers agree at the start of a run, whatever they have been used for. -/
theorem agree_start (s : Scheduler n) (o : Nat) (s' : Scheduler n') (o' : Nat) :
    s.start.Agree o s'.start o' where
  marked_iff _ := iff_of_false not_marked_start not_marked_start
  count_eq := count_start.trans count_start.symm
  peak_eq := rfl
  work_eq := rfl

theorem freshBehind_start (s : Scheduler n) (o : Nat) : s.start.FreshBehind o :=
  fun _ _ => ⟨count_start, fun _ => not_marked_start⟩

/-- Schedulers that agree at one pair of offsets agree at the next, where nothing has been admitted.
-/
theorem Agree.of_freshBehind {o₂ o₂' : Nat} (h : s.Agree o s' o') (hs : s.FreshBehind o)
    (hs' : s'.FreshBehind o') (hlt : o < o₂) (hlt' : o' < o₂') : s.Agree o₂ s' o₂' where
  marked_iff q := iff_of_false ((hs o₂ hlt).2 q) ((hs' o₂' hlt').2 q)
  count_eq := (hs o₂ hlt).1.trans (hs' o₂' hlt').1.symm
  peak_eq := h.peak_eq
  work_eq := h.work_eq

/-- A walk admits nothing at the offsets behind its own. -/
theorem FreshBehind.after {p : Program} {s : Scheduler p.size} {o₂ : Nat} (h : s.FreshBehind o)
    (hle : o ≤ o₂) (stack : List Thread) : (s.after o₂ stack).FreshBehind o₂ := by
  intro o₃ hlt
  obtain ⟨hcount, hmarked⟩ := h o₃ (hle.trans_lt hlt)
  refine ⟨?_, fun q hq => hmarked q (hq.of_after hlt.ne')⟩
  rw [after_eq_enterAll]
  exact count_enterAll_of_ne hcount hlt.ne'

end Scheduler

namespace Program.Simulates

variable {p p' : Program} {cells cells' : List Cell} {o o' : Nat}

section Threads

variable {threads threads' : List Thread} {t t' : Thread} (h : p.Simulates At R p')
include h

/-- At each position both programs have corresponding instructions, or neither has one. -/
theorem instruction_cases (q : Nat) :
    p.body[q]? = none ∧ p'.body[q]? = none ∨
      ∃ i i', p.body[q]? = some i ∧ p'.body[q]? = some i' ∧ i.Simulates At R q i' := by
  have hi := h.instruction q
  cases hp : p.body[q]? <;> cases hp' : p'.body[q]? <;> rw [hp, hp'] at hi
  · exact Or.inl ⟨rfl, rfl⟩
  · cases hi
  · cases hi
  · exact Or.inr ⟨_, _, rfl, rfl, Option.rel_some_some.1 hi⟩

/-- Two programs that correspond have the same positions. -/
theorem lt_size_iff (q : Nat) : q < p.size ↔ q < p'.size := by
  rcases h.instruction_cases q with ⟨hi, hi'⟩ | ⟨i, i', hi, hi', -⟩
  · exact iff_of_false (Nat.not_lt.2 (Array.getElem?_eq_none_iff.1 hi))
      (Nat.not_lt.2 (Array.getElem?_eq_none_iff.1 hi'))
  · exact iff_of_true (Array.getElem?_eq_some_iff.1 hi).1 (Array.getElem?_eq_some_iff.1 hi').1

/-- Related threads are followed by related threads. -/
theorem follow (hat : At o o') (ht : t.Related R t') (hlt : t.position < p.size)
    (hlt' : t'.position < p'.size) :
    Option.Rel (List.Forall₂ (Thread.Related R)) (p.body[t.position].follow t o)
      (p'.body[t'.position].follow t' o') := by
  obtain ⟨q, slots⟩ := t
  obtain ⟨q', slots'⟩ := t'
  obtain ⟨rfl, hR⟩ := ht
  have hi := h.instruction q
  rw [Array.getElem?_eq_getElem hlt, Array.getElem?_eq_getElem hlt', Option.rel_some_some] at hi
  exact hi.follow hat hR

theorem isAccepting_eq (ht : t.Related R t') : p.isAccepting t = p'.isAccepting t' := by
  rw [isAccepting, isAccepting, ← ht.position_eq]
  rcases h.instruction_cases t.position with ⟨hi, hi'⟩ | ⟨i, i', hi, hi', hsim⟩
  · rw [hi, hi']
  · rw [hi, hi']
    exact Bool.eq_iff_iff.2 (by simp [hsim.accept_iff])

theorem any_accepts_eq (ht : t.Related R t') (c : Char) :
    (p.body[t.position]?.any (·.accepts c)) = p'.body[t'.position]?.any (·.accepts c) := by
  rw [← ht.position_eq]
  rcases h.instruction_cases t.position with ⟨hi, hi'⟩ | ⟨i, i', hi, hi', hsim⟩
  · rw [hi, hi']
  · rw [hi, hi']
    exact hsim.accepts_eq c

theorem advance {c : Char} (ht : List.Forall₂ (Thread.Related R) threads threads') :
    List.Forall₂ (Thread.Related R) (p.advance c threads) (p'.advance c threads') := by
  refine List.rel_map (fun t t' ht => ⟨congrArg (· + 1) ht.position_eq, ht.slots⟩)
    (List.rel_filter (fun t t' ht => ?_) ht)
  exact iff_of_eq (congrArg (· = true) (h.any_accepts_eq ht c))

/-- The threads ahead of the first one that accepts. -/
theorem ahead (ht : List.Forall₂ (Thread.Related R) threads threads') :
    List.Forall₂ (Thread.Related R) (threads.takeWhile (!p.isAccepting ·))
      (threads'.takeWhile (!p'.isAccepting ·)) := by
  induction ht with
  | nil => exact .nil
  | cons ht _ ih =>
    rw [List.takeWhile_cons, List.takeWhile_cons, h.isAccepting_eq ht]
    split
    · exact .cons ht ih
    · exact .nil

theorem visit (hat : At o o') (ht : List.Forall₂ (Thread.Related R) threads threads') :
    (p.visit o threads).Related At R (p'.visit o' threads') := by
  refine ⟨hat, ?_, ?_⟩
  · exact List.forall₂_eq_eq_eq ▸ List.rel_map (fun t t' ht => ht.position_eq) ht
  · show Option.Rel R ((threads.find? p.isAccepting).map _) ((threads'.find? p'.isAccepting).map _)
    induction ht with
    | nil => exact .none
    | cons ht _ ih =>
      rw [List.find?_cons, List.find?_cons, h.isAccepting_eq ht]
      split
      · exact .some ht.slots
      · exact ih

end Threads

/-- **Step.** Walks of related stacks, by schedulers that agree at a pair of corresponding offsets,
schedule related threads and leave schedulers that agree there. -/
theorem walk (h : p.Simulates At R p') (hat : At o o') {s : Scheduler p.size}
    {s' : Scheduler p'.size} {stack stack' : List Thread} (hs : s.Agree o s' o')
    (hstack : List.Forall₂ (Thread.Related R) stack stack') :
    (s.after o stack).Agree o (s'.after o' stack') o' ∧
      List.Forall₂ (Thread.Related R) (s.reached o stack) (s'.reached o' stack') := by
  induction s, stack using Scheduler.walkRecursion o generalizing s' stack' with
  | nil s =>
    cases hstack
    simpa using hs
  | dead s thread rest hd ih =>
    obtain ⟨thread', rest', ht, hrest, rfl⟩ := List.forall₂_cons_left_iff.1 hstack
    have hd' : p'.size ≤ thread'.position :=
      Nat.not_lt.1 fun hlt => Nat.not_lt.2 hd (ht.position_eq ▸ (h.lt_size_iff _).2 hlt)
    rw [Scheduler.after_dead hd, Scheduler.after_dead hd', Scheduler.reached_dead hd,
      Scheduler.reached_dead hd']
    exact ih hs hrest
  | marked s thread rest hm ih =>
    obtain ⟨thread', rest', ht, hrest, rfl⟩ := List.forall₂_cons_left_iff.1 hstack
    have hm' : s'.Marked o' thread'.position := ht.position_eq ▸ (hs.marked_iff _).1 hm
    rw [Scheduler.after_marked hm, Scheduler.after_marked hm', Scheduler.reached_marked hm,
      Scheduler.reached_marked hm']
    exact ih hs hrest
  | follow s thread rest next hlt hm hf ih₁ ih₂ =>
    obtain ⟨thread', rest', ht, hrest, rfl⟩ := List.forall₂_cons_left_iff.1 hstack
    have hlt' : thread'.position < p'.size := ht.position_eq ▸ (h.lt_size_iff _).1 hlt
    have hm' := hs.isMarked_eq_false ht.position_eq hlt' hm
    have hfollow := h.follow hat ht hlt hlt'
    -- The branches behind the instruction are walked first, with the instruction admitted.
    cases hf' : p'.body[thread'.position].follow thread' o' with
    | none =>
      rw [hf', hf] at hfollow
      cases hfollow
    | some next' =>
      rw [hf', hf, Option.rel_some_some] at hfollow
      obtain ⟨hs₁, hnext⟩ := ih₁ (hs.enter ht.position_eq hlt hlt') hfollow
      obtain ⟨hs₂, hrest⟩ := ih₂ hs₁ hrest
      rw [Scheduler.after_follow hlt hm hf, Scheduler.after_follow hlt' hm' hf',
        Scheduler.reached_follow hlt hm hf, Scheduler.reached_follow hlt' hm' hf']
      exact ⟨hs₂, List.rel_append hnext hrest⟩
  | wait s thread rest hlt hm hf ih =>
    obtain ⟨thread', rest', ht, hrest, rfl⟩ := List.forall₂_cons_left_iff.1 hstack
    have hlt' : thread'.position < p'.size := ht.position_eq ▸ (h.lt_size_iff _).1 hlt
    have hm' := hs.isMarked_eq_false ht.position_eq hlt' hm
    have hfollow := h.follow hat ht hlt hlt'
    cases hf' : p'.body[thread'.position].follow thread' o' with
    | some next' =>
      rw [hf', hf] at hfollow
      cases hfollow
    | none =>
      obtain ⟨hs₁, hrest⟩ := ih (hs.enter ht.position_eq hlt hlt') hrest
      rw [Scheduler.after_wait hlt hm hf, Scheduler.after_wait hlt' hm' hf',
        Scheduler.reached_wait hlt hm hf, Scheduler.reached_wait hlt' hm' hf']
      exact ⟨hs₁, .cons ht hrest⟩

/-- **Run.** Moving related threads on over aligned cells leads to the same counts, to related
visits and to related matches, if nothing has been admitted at the offsets to come. -/
theorem moveOn (h : p.Simulates At R p') (hc : Aligned At cells o cells' o')
    (hpos : ∀ cell ∈ cells, 0 < cell.width) (hpos' : ∀ cell ∈ cells', 0 < cell.width)
    {s : Scheduler p.size} {s' : Scheduler p'.size} {threads threads' : List Thread}
    {found found' : Option Found} {visits visits' : Array Visit}
    (hs : s.Agree o s' o') (hfresh : s.FreshBehind o) (hfresh' : s'.FreshBehind o')
    (ht : List.Forall₂ (Thread.Related R) threads threads')
    (hfound : Option.Rel (Found.Related At R) found found')
    (hvisits : List.Forall₂ (Visit.Related At R) visits.toList visits'.toList) :
    let result := p.moveOn cells o s threads found visits
    let result' := p'.moveOn cells' o' s' threads' found' visits'
    Outcome.Related At R ⟨result.2.1, result.2.2, result.1.peak, result.1.work⟩
      ⟨result'.2.1, result'.2.2, result'.1.peak, result'.1.work⟩ := by
  induction hc generalizing s s' threads threads' found found' visits visits' with
  | nil hat =>
    cases ht with
    | nil =>
      rw [moveOn_nil, moveOn_nil]
      exact ⟨hfound, hvisits, hs.peak_eq, hs.work_eq⟩
    | cons ht hrest =>
      have hvisit := h.visit hat (.cons ht hrest)
      rw [moveOn_end (List.cons_ne_nil _ _), moveOn_end (List.cons_ne_nil _ _)]
      exact ⟨hvisit.or hfound, hvisit.push hvisits, hs.peak_eq, hs.work_eq⟩
  | @cons cell cell' cells cells' o o' hat hchar hc ih =>
    cases ht with
    | nil =>
      rw [moveOn_nil, moveOn_nil]
      exact ⟨hfound, hvisits, hs.peak_eq, hs.work_eq⟩
    | cons ht hrest =>
      have hvisit := h.visit hat (.cons ht hrest)
      obtain ⟨hwidth, hpos⟩ := List.forall_mem_cons.1 hpos
      obtain ⟨hwidth', hpos'⟩ := List.forall_mem_cons.1 hpos'
      have hlt : o < o + cell.width := Nat.lt_add_of_pos_right hwidth
      have hlt' : o' < o' + cell'.width := Nat.lt_add_of_pos_right hwidth'
      -- The next offsets have not been come to yet, so the schedulers agree there as well.
      obtain ⟨hs₁, hnext⟩ := h.walk hc.at (hs.of_freshBehind hfresh hfresh' hlt hlt')
        (h.advance (c := cell.char) (h.ahead (.cons ht hrest)))
      rw [moveOn_cons (List.cons_ne_nil _ _), moveOn_cons (List.cons_ne_nil _ _), ← hchar]
      simp only [Scheduler.walk_eq_after, Array.empty_append]
      exact ih hpos hpos' hs₁ (hfresh.after hlt.le _) (hfresh'.after hlt'.le _) hnext
        (hvisit.or hfound) (hvisit.push hvisits)

/-- **Runs side by side.** Runs over aligned cells do the same, by whatever schedulers. -/
theorem runFrom (h : p.Simulates At R p') (hc : Aligned At cells o cells' o')
    (hpos : ∀ cell ∈ cells, 0 < cell.width) (hpos' : ∀ cell ∈ cells', 0 < cell.width)
    (s : Scheduler p.size) (s' : Scheduler p'.size) :
    (p.runFrom s cells o).1.Related At R (p'.runFrom s' cells' o').1 := by
  have hstack : List.Forall₂ (Thread.Related R) [⟨0, Array.replicate p.slotCount none⟩]
      [⟨0, Array.replicate p'.slotCount none⟩] := .cons ⟨rfl, h.slots⟩ .nil
  obtain ⟨hs, ht⟩ := h.walk hc.at (s.agree_start o s' o') hstack
  have hrun := h.moveOn hc hpos hpos' hs ((s.freshBehind_start o).after le_rfl _)
    ((s'.freshBehind_start o').after le_rfl _) ht .none .nil
  unfold Program.runFrom
  simp only [Scheduler.walk_eq_after, Array.empty_append]
  exact hrun

end Program.Simulates

/-! ### One program at other offsets -/

section Relocate

variable {φ : Nat → Nat}

/-- Saving an offset in one run and its counterpart in another keeps slots related. -/
theorem Program.simulates_relocate (p : Program) (φ : Nat → Nat) :
    p.Simulates (φ · = ·) (Slots.relocate φ · = ·) p := by
  refine simulates_self (Slots.relocate_replicate φ _) ?_
  rintro o _ slots _ k rfl rfl
  exact Slots.relocate_setIfInBounds φ slots k o

theorem map_eq_map_of_rel {α β γ : Type} {r : α → β → Prop} {f : α → γ} {g : β → γ} {a : Option α}
    {b : Option β} (h : Option.Rel r a b) (hfg : ∀ a b, r a b → f a = g b) : a.map f = b.map g := by
  cases h with
  | some h => exact congrArg some (hfg _ _ h)
  | none => rfl

theorem Found.Related.relocate_eq {f f' : Found}
    (h : f.Related (φ · = ·) (Slots.relocate φ · = ·) f') : f.relocate φ = f' :=
  congr (congrArg Found.mk h.finish) h.slots

theorem Visit.Related.relocate_eq {v v' : Visit}
    (h : v.Related (φ · = ·) (Slots.relocate φ · = ·) v') : v.relocate φ = v' := by
  have haccepted : v.accepted.map (Slots.relocate φ) = v'.accepted.map id :=
    map_eq_map_of_rel h.accepted fun _ _ => id
  rw [Option.map_id_apply] at haccepted
  exact congr (congr (congrArg Visit.mk h.offset) h.positions_eq) haccepted

theorem Outcome.Related.relocate_eq {o o' : Outcome}
    (h : o.Related (φ · = ·) (Slots.relocate φ · = ·) o') : o.relocate φ = o' := by
  obtain ⟨found, visits, peak, work⟩ := o
  obtain ⟨found', visits', peak', work'⟩ := o'
  obtain ⟨hfound, hvisits, rfl, rfl⟩ := h
  have hfound : found.map (Found.relocate φ) = found'.map id :=
    map_eq_map_of_rel hfound fun _ _ => Found.Related.relocate_eq
  have hvisits : visits.map (Visit.relocate φ) = visits' := by
    rw [← Array.toList_inj, Array.toList_map, ← List.forall₂_eq_eq_eq, List.forall₂_map_left_iff]
    exact hvisits.imp fun _ _ => Visit.Related.relocate_eq
  rw [Outcome.relocate, hfound, Option.map_id_apply, hvisits]

/-- A run over the same characters at other offsets has the same result at those offsets, whatever
either scheduler has been used for. -/
theorem Program.runFrom_eq_relocate (p : Program) {cells cells' : List Cell} {start start' : Nat}
    (h : Aligned (φ · = ·) cells start cells' start') (hpos : ∀ cell ∈ cells, 0 < cell.width)
    (hpos' : ∀ cell ∈ cells', 0 < cell.width) (s s' : Scheduler p.size) :
    (p.runFrom s' cells' start').1 = (p.runFrom s cells start).1.relocate φ :=
  ((p.simulates_relocate φ).runFrom h hpos hpos' s s').relocate_eq.symm

end Relocate

/-- A run does not depend on what its scheduler has been used for. -/
theorem Program.fst_runFrom (p : Program) {cells : List Cell} (hc : ∀ cell ∈ cells, 0 < cell.width)
    (s s' : Scheduler p.size) (start : Nat) :
    (p.runFrom s' cells start).1 = (p.runFrom s cells start).1 := by
  rw [p.runFrom_eq_relocate (aligned_id cells start) hc hc s s', Outcome.relocate_id]

/-- The match of a run has as many slots as the program. -/
theorem Program.size_slots_of_run (p : Program) {t : Text} {start : Nat} {f : Found}
    (h : f ∈ (p.run t start).found) : f.slots.size = p.slotCount := by
  have hsim : p.Simulates (id · = ·) (fun slots _ => slots.size = p.slotCount) p :=
    simulates_self Array.size_replicate fun k _ hsize => by
      rwa [Array.size_setIfInBounds]
  have hc : ∀ cell ∈ t.cellsFrom start, 0 < cell.width := fun _ => Text.width_pos_of_mem_cellsFrom
  have hrun := (hsim.runFrom (aligned_id _ start) hc hc (.initial _) (.initial _)).found
  rw [Option.mem_def, run] at h
  rw [h, Option.rel_some_some] at hrun
  exact hrun.slots

end Lockstep
