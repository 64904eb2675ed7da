import Lockstep.Log

/-!
# Results at other offsets

What a run finds in one text can be read as what a run finds in another, if each offset of the first
has a counterpart in the second.

* `Slots.relocate`, `Found.relocate`, `Visit.relocate`, `Outcome.relocate`: the result of a run with
  every offset replaced by its counterpart. Slots without an offset, positions and counts stay.
* `LogLine.relocate`: the same for what the run reports.
-/

namespace Lockstep

/-- Slots with every offset replaced. -/
def Slots.relocate (φ : Nat → Nat) (slots : Slots) : Slots := slots.map (Option.map φ)

/-- A match with every offset replaced. -/
def Found.relocate (φ : Nat → Nat) (f : Found) : Found := ⟨φ f.finish, Slots.relocate φ f.slots⟩

/-- A visit with every offset replaced. -/
def Visit.relocate (φ : Nat → Nat) (v : Visit) : Visit :=
  ⟨φ v.offset, v.positions, v.accepted.map (Slots.relocate φ)⟩

/-- The result of a run with every offset replaced. -/
def Outcome.relocate (φ : Nat → Nat) (o : Outcome) : Outcome :=
  ⟨o.found.map (Found.relocate φ), o.visits.map (Visit.relocate φ), o.peak, o.work⟩

/-- A line of the log with every offset of a text replaced. -/
def LogLine.relocate (φ : Nat → Nat) : LogLine → LogLine
  | waiting offset positions => waiting (φ offset) positions
  | accepted offset slots => accepted (φ offset) (Slots.relocate φ slots)
  | line => line

section

variable (φ : Nat → Nat)

@[simp] theorem Slots.relocate_replicate (n : Nat) :
    Slots.relocate φ (Array.replicate n none) = Array.replicate n none := by
  simp [Slots.relocate]

/-- Saving an offset is saving its counterpart. -/
theorem Slots.relocate_setIfInBounds (slots : Slots) (slot offset : Nat) :
    Slots.relocate φ (slots.setIfInBounds slot (some offset)) =
      (Slots.relocate φ slots).setIfInBounds slot (some (φ offset)) := by
  simp [Slots.relocate]

@[simp] theorem Slots.relocate_id (slots : Slots) : Slots.relocate id slots = slots := by
  simp [Slots.relocate]

@[simp] theorem Found.relocate_id (f : Found) : f.relocate id = f := by
  simp [Found.relocate]

@[simp] theorem Visit.relocate_id (v : Visit) : v.relocate id = v := by
  have h : Slots.relocate id = id := funext Slots.relocate_id
  simp [Visit.relocate, h]

@[simp] theorem Outcome.relocate_id (o : Outcome) : o.relocate id = o := by
  have hfound : Found.relocate id = id := funext Found.relocate_id
  have hvisit : Visit.relocate id = id := funext Visit.relocate_id
  simp [Outcome.relocate, hfound, hvisit]

/-- What a visit with other offsets reports. -/
theorem Visit.trace_relocate (v : Visit) :
    (v.relocate φ).trace = v.trace.map (LogLine.relocate φ) := by
  obtain ⟨offset, positions, _ | slots⟩ := v <;> rfl

/-- What a run with other offsets reports. -/
theorem Outcome.trace_relocate (o : Outcome) :
    (o.relocate φ).trace = o.trace.map (LogLine.relocate φ) := by
  simp only [Outcome.trace, Outcome.relocate, Array.toList_map, List.flatMap_map,
    Visit.trace_relocate, List.map_append, List.map_cons, List.map_flatMap, List.map_nil,
    LogLine.relocate]

end

end Lockstep
