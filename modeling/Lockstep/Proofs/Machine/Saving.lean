import Lockstep.Machine.Saving
import Lockstep.Proofs.Machine.Simulation
import Lockstep.Proofs.Program.Slots

/-!
# What is saved has no influence

A program and one that saves otherwise have corresponding instructions, if nothing is asked of their
slots. So their runs do the same at every offset, and only the slots differ. If slots are renamed so
that no two of them become one, the offsets that have been saved are found under the new names.

* `Outcome.Related.eraseSlots_eq`: runs side by side are the same without their slots.
* `Program.simulates_withoutSaves`, `Program.simulates_renameSlots`: programs that save otherwise.
* `Slots.Renamed`: slots under other names; `Slots.Renamed.save`: what saving keeps of this.
* `Program.slot_le_of_allocatable`, `Program.slot_lt_slotCount`: threads have the slots that are
  saved to.
* `Program.run_up_to_saves`: runs of programs that save otherwise.
-/

namespace Lockstep

/-! ### Results without slots -/

section Erase

variable {R : Slots → Slots → Prop}

theorem Found.Related.eraseSlots_eq {f f' : Found} (h : f.Related (id · = ·) R f') :
    f.eraseSlots = f'.eraseSlots :=
  congrArg (Found.mk · #[]) h.finish

theorem Visit.Related.eraseSlots_eq {v v' : Visit} (h : v.Related (id · = ·) R v') :
    v.eraseSlots = v'.eraseSlots := by
  have hoffset : v.offset = v'.offset := h.offset
  have haccepted : v.accepted.map (fun _ => (#[] : Slots)) = v'.accepted.map fun _ => #[] :=
    map_eq_map_of_rel h.accepted fun _ _ _ => rfl
  rw [Visit.eraseSlots, Visit.eraseSlots, hoffset, h.positions_eq, haccepted]

/-- Runs side by side at the same offsets are the same without their slots. -/
theorem Outcome.Related.eraseSlots_eq {o o' : Outcome} (h : o.Related (id · = ·) R o') :
    o.eraseSlots = o'.eraseSlots := by
  have hfound : o.found.map Found.eraseSlots = o'.found.map Found.eraseSlots :=
    map_eq_map_of_rel h.found fun _ _ => Found.Related.eraseSlots_eq
  have hvisits : o.visits.map Visit.eraseSlots = o'.visits.map Visit.eraseSlots := by
    rw [← Array.toList_inj, Array.toList_map, Array.toList_map, ← List.forall₂_eq_eq_eq]
    exact List.rel_map (fun _ _ hv => hv.eraseSlots_eq) h.visits
  rw [Outcome.eraseSlots, Outcome.eraseSlots, hfound, hvisits, h.peak_eq, h.work_eq]

end Erase

namespace Program

variable {p : Program} {f : Nat → Nat} {R : Slots → Slots → Prop}

/-- Runs of corresponding programs on one text. -/
theorem Simulates.run {p' : Program} (h : p.Simulates (id · = ·) R p') (t : Text) (start : Nat) :
    (p.run t start).Related (id · = ·) R (p'.run t start) :=
  h.runFrom (aligned_id _ start) (fun _ => Text.width_pos_of_mem_cellsFrom)
    (fun _ => Text.width_pos_of_mem_cellsFrom) _ _

/-! ### Programs that save otherwise -/

/-- A jump to the next position leads where a save leads. -/
theorem simulates_withoutSaves (p : Program) :
    p.Simulates (id · = ·) (fun _ _ => True) p.withoutSaves := by
  refine ⟨trivial, fun q => ?_⟩
  rw [getElem?_body_withoutSaves]
  cases p.body[q]? with
  | none => exact .none
  | some i =>
    cases i with
    | save slot =>
      exact .some ⟨fun _ _ => .some (.cons ⟨rfl, trivial⟩ .nil), fun _ => rfl,
        iff_of_false nofun nofun⟩
    | _ => exact .some (.of_ne_save nofun)

/-- Programs with other names for their slots correspond if saving keeps slots related. -/
theorem simulates_renameSlots
    (hslots : R (Array.replicate p.slotCount none)
      (Array.replicate (p.renameSlots f).slotCount none))
    (hsave : ∀ {o slots slots'} (k : Nat), .save k ∈ p.body → R slots slots' →
      R (slots.setIfInBounds k (some o)) (slots'.setIfInBounds (f k) (some o))) :
    p.Simulates (id · = ·) R (p.renameSlots f) := by
  refine ⟨hslots, fun q => ?_⟩
  rw [getElem?_body_renameSlots]
  cases hq : p.body[q]? with
  | none => exact .none
  | some i =>
    cases i with
    | save slot =>
      refine .some (.save ?_)
      rintro o _ slots slots' rfl hR
      exact hsave slot (Array.mem_of_getElem? hq) hR
    | _ => exact .some (.of_ne_save nofun)

/-- If slots can be allocated for the threads of a program, none is saved to that is too great to be
counted. -/
theorem slot_le_of_allocatable (h : p.Allocatable) {slot : Nat}
    (hslot : Instruction.save slot ∈ p.body) : slot ≤ maxWord - 2 := by
  have hword := maxWord_eq
  have hneeded : min (slot + 2) maxWord / 2 * 2 ≤ p.slotCount := slotsNeeded_le_slotCount hslot
  rw [Allocatable] at h
  omega

/-- If slots can be allocated for the threads of a program, they have those that it saves to. -/
theorem slot_lt_slotCount (h : p.Allocatable) {slot : Nat}
    (hslot : Instruction.save slot ∈ p.body) : slot < p.slotCount :=
  lt_slotCount (slot_le_of_allocatable h hslot) hslot

end Program

/-! ### Slots under other names -/

/-- The slots `slots'` hold under the names that `f` gives what `slots` hold, and nothing else. -/
structure Slots.Renamed (f : Nat → Nat) (n n' : Nat) (slots slots' : Slots) : Prop where
  size_eq : slots.size = n
  size_eq' : slots'.size = n'
  read_eq : ∀ k, slots'[f k]?.join = slots[k]?.join
  unset : ∀ j, j ∉ Set.range f → slots'[j]?.join = none

namespace Slots.Renamed

variable {f : Nat → Nat} {n n' : Nat} {slots slots' : Slots}

theorem replicate (f : Nat → Nat) (n n' : Nat) :
    Renamed f n n' (Array.replicate n none) (Array.replicate n' none) := by
  have hnone (m j : Nat) : (Array.replicate m (none : Option Nat))[j]?.join = none := by
    rw [Array.getElem?_replicate]
    split <;> rfl
  exact ⟨Array.size_replicate, Array.size_replicate, fun k => by rw [hnone, hnone],
    fun j _ => hnone n' j⟩

/-- Saving under the name of a slot does what saving to the slot does. -/
theorem save (hf : f.Injective) (h : Renamed f n n' slots slots') {k : Nat} (hk : k < n)
    (hk' : f k < n') (o : Nat) :
    Renamed f n n' (slots.setIfInBounds k (some o)) (slots'.setIfInBounds (f k) (some o)) := by
  obtain ⟨rfl, rfl, hread, hunset⟩ := h
  refine ⟨Array.size_setIfInBounds, Array.size_setIfInBounds, fun j => ?_, fun j hj => ?_⟩
  · by_cases hkj : k = j
    · subst hkj
      rw [Array.getElem?_setIfInBounds_self_of_lt hk, Array.getElem?_setIfInBounds_self_of_lt hk']
    · rw [Array.getElem?_setIfInBounds_ne hkj,
        Array.getElem?_setIfInBounds_ne fun heq => hkj (hf heq), hread]
  · rw [Array.getElem?_setIfInBounds_ne fun heq => hj ⟨k, heq⟩, hunset j hj]

end Slots.Renamed

namespace Program

variable {p : Program} {f : Nat → Nat}

/-- Threads keep their slots under the new names, if there is room for all of them. -/
theorem simulates_renamed (hf : f.Injective) (h : p.Allocatable)
    (h' : (p.renameSlots f).Allocatable) :
    p.Simulates (id · = ·) (Slots.Renamed f p.slotCount (p.renameSlots f).slotCount)
      (p.renameSlots f) := by
  refine simulates_renameSlots (.replicate f _ _) fun k hk hR => ?_
  have hmem : Instruction.save (f k) ∈ (p.renameSlots f).body :=
    Array.mem_map.2 ⟨_, hk, rfl⟩
  exact hR.save hf (slot_lt_slotCount h hk) (slot_lt_slotCount h' hmem) _

/-- **What is saved has no influence.** A run of a program and one of the program that saves nothing
are the same but for the slots: they end at the same offset or both find nothing, the same threads
wait at the same offsets in the same order, and the peaks are equal. This is also true if the slots
are renamed. Then, if no two slots become one and the rows of slots can be allocated, the match
holds under the new name of each slot what it held under the old one, and nothing under other names.
-/
theorem run_up_to_saves (p : Program) (t : Text) (start : Nat) :
    (p.withoutSaves.run t start).eraseSlots = (p.run t start).eraseSlots ∧
    ∀ f : Nat → Nat,
      ((p.renameSlots f).run t start).eraseSlots = (p.run t start).eraseSlots ∧
      (f.Injective → p.Allocatable → (p.renameSlots f).Allocatable →
        ∀ m, (p.run t start).found = some m → ∃ slots,
          ((p.renameSlots f).run t start).found = some ⟨m.finish, slots⟩ ∧
          (∀ k, slots[f k]?.join = m.slots[k]?.join) ∧
          ∀ j, j ∉ Set.range f → slots[j]?.join = none) := by
  refine ⟨(p.simulates_withoutSaves.run t start).eraseSlots_eq.symm, fun f => ⟨?_, ?_⟩⟩
  · have hsim : p.Simulates (id · = ·) (fun _ _ => True) (p.renameSlots f) :=
      simulates_renameSlots trivial fun _ _ _ => trivial
    exact (hsim.run t start).eraseSlots_eq.symm
  · intro hf h h' m hm
    have hfound := ((simulates_renamed hf h h').run t start).found
    rw [hm] at hfound
    cases hm' : ((p.renameSlots f).run t start).found with
    | none =>
      rw [hm'] at hfound
      cases hfound
    | some m' =>
      rw [hm', Option.rel_some_some] at hfound
      obtain ⟨finish, slots⟩ := m'
      obtain rfl : m.finish = finish := hfound.finish
      exact ⟨slots, rfl, hfound.slots.read_eq, hfound.slots.unset⟩

/-- The slots of two groups, of which the second takes no part, are moved apart. -/
theorem run_up_to_saves_moved_apart :
    let p : Program := .ofBody #[.save 0, .char 'a', .save 1, .split 4 7, .save 2, .char 'b',
      .save 3, .accept]
    let f : Nat → Nat := (2 * · + 1)
    f.Injective ∧ p.Allocatable ∧ (p.renameSlots f).Allocatable ∧
      (p.run (.wide "ac") 0).found = some ⟨1, #[some 0, some 1, none, none]⟩ ∧
      ∃ slots, ((p.renameSlots f).run (.wide "ac") 0).found = some ⟨1, slots⟩ ∧
        slots[1]?.join = some 0 ∧ slots[3]?.join = some 1 ∧ slots[5]?.join = none ∧
        slots[2]?.join = none := by
  intro p f
  have hf : f.Injective := fun a b (h : 2 * a + 1 = 2 * b + 1) => by omega
  have hp : p.Allocatable := by decide +kernel
  have hp' : (p.renameSlots f).Allocatable := by decide +kernel
  have hfound : (p.run (.wide "ac") 0).found = some ⟨1, #[some 0, some 1, none, none]⟩ := by
    decide +kernel
  have hodd : 2 ∉ Set.range f := by
    rintro ⟨k, hk⟩
    have hk : 2 * k + 1 = 2 := hk
    omega
  obtain ⟨slots, hrenamed, hread, hunset⟩ :=
    ((run_up_to_saves p (.wide "ac") 0).2 f).2 hf hp hp' _ hfound
  exact ⟨hf, hp, hp', hfound, slots, hrenamed, hread 0, hread 1, hread 2, hunset 2 hodd⟩

end Program

end Lockstep
