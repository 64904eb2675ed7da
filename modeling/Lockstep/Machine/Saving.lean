import Lockstep.Machine.Run

/-!
# Programs that save otherwise

Slots are only written to: no instruction looks at what has been saved. Other programs can be made
from a program by changing what it saves, and then the results of runs can be compared without their
slots.

* `Program.withoutSaves`: the program that saves nothing.
* `Program.renameSlots`: the program that saves to other slots.
* `Program.Allocatable`: whether there can be a row of slots for a thread.
* `Outcome.eraseSlots`: the result of a run without its slots.
-/

namespace Lockstep

namespace Instruction

/-- An instruction at `position` that does not save: in place of that it goes on behind. -/
def skipSave (position : Nat) : Instruction → Instruction
  | save _ => jump (position + 1)
  | i => i

/-- An instruction that saves to another slot. -/
def mapSlot (f : Nat → Nat) : Instruction → Instruction
  | save slot => save (f slot)
  | i => i

end Instruction

namespace Program

/-- The program with a jump to the next position in place of every save. -/
def withoutSaves (p : Program) : Program := .ofBody (p.body.mapIdx Instruction.skipSave)

/-- The program with other slots to save to. -/
def renameSlots (f : Nat → Nat) (p : Program) : Program := .ofBody (p.body.map (·.mapSlot f))

/-- Whether a row of slots can be allocated, which are words of eight bytes each: nothing in memory
takes more bytes than half of the greatest word. -/
def Allocatable (p : Program) : Prop := 8 * p.slotCount ≤ maxWord / 2

instance (p : Program) : Decidable p.Allocatable := inferInstanceAs (Decidable (_ ≤ _))

@[simp] theorem getElem?_body_withoutSaves (p : Program) (q : Nat) :
    p.withoutSaves.body[q]? = p.body[q]?.map (·.skipSave q) := by
  simp [withoutSaves]

@[simp] theorem getElem?_body_renameSlots (f : Nat → Nat) (p : Program) (q : Nat) :
    (p.renameSlots f).body[q]? = p.body[q]?.map (·.mapSlot f) := by
  simp [renameSlots]

end Program

/-- A match without its slots. -/
def Found.eraseSlots (f : Found) : Found := { f with slots := #[] }

/-- A visit without the slots of the thread that accepted, if one did. -/
def Visit.eraseSlots (v : Visit) : Visit := { v with accepted := v.accepted.map fun _ => #[] }

/-- The result of a run without its slots: where it ends and what it comes to on the way. -/
def Outcome.eraseSlots (o : Outcome) : Outcome :=
  { o with found := o.found.map Found.eraseSlots, visits := o.visits.map Visit.eraseSlots }

end Lockstep
