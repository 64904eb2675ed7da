import Lockstep.Program.SlotWord
import Mathlib.Order.Bounds.Basic

/-!
# How many slots a program has

Slots come in whole pairs, and their number is less than the greatest word. Unless one of the two
greatest words is saved to, there is a slot wherever something is saved to, and no pair too many.

* `Program.two_dvd_slotCount`, `Program.slotCount_lt_maxWord`: the number of slots of a program.
* `Program.isLeast_slotCount`: it is the least even number above the slots that are saved to.
* `Program.slotCount_eq_of_save`: what it is when one of the greatest words is saved to.
* `Program.slotCount_mono`: more instructions need no fewer slots, and their order is indifferent.
* `Program.toNat_slotWord`: counting in words comes to the same number.
-/

namespace Lockstep

namespace Instruction

theorem two_dvd_slotsNeeded (i : Instruction) : 2 ∣ i.slotsNeeded := by
  cases i with
  | save slot => exact Nat.dvd_mul_left 2 _
  | _ => exact Nat.dvd_zero 2

/-- The greatest word is odd, so whole pairs of slots stay below it. -/
theorem slotsNeeded_lt_maxWord (i : Instruction) : i.slotsNeeded < maxWord := by
  have hword := maxWord_eq
  cases i with
  | save slot =>
    rw [slotsNeeded]
    omega
  | _ => exact Nat.lt_of_lt_of_eq (Nat.zero_lt_succ _) hword.symm

/-- An instruction needs a slot that it saves to, if this can be counted. -/
theorem lt_slotsNeeded_save {slot : Nat} (h : slot ≤ maxWord - 2) :
    slot < (save slot).slotsNeeded := by
  have hword := maxWord_eq
  rw [slotsNeeded]
  omega

/-- An instruction needs no more slots than the next even number above the one that it saves to. -/
theorem slotsNeeded_save_le {slot n : Nat} (heven : 2 ∣ n) (h : slot < n) :
    (save slot).slotsNeeded ≤ n := by
  rw [slotsNeeded]
  omega

/-- Counted in words, an instruction that saves needs the same slots. -/
theorem toNat_slotWord? {i : Instruction} {w : UInt64} (h : i.slotWord? = some w)
    (hfits : ∀ slot, i = save slot → slot ≤ maxWord) : w.toNat = i.slotsNeeded := by
  cases i with
  | save slot =>
    have hslot : (UInt64.ofNat slot).toNat = slot :=
      UInt64.toNat_ofNat_of_lt' (Nat.lt_succ_of_le (hfits slot rfl))
    obtain rfl := Option.some.inj h
    rw [toNat_clearLowBit, toNat_saturatingAdd, hslot]
    rfl
  | _ => cases h

end Instruction

/-- The greater of two words is what it is among numbers. -/
instance instLawfulOrderMaxWord : Std.LawfulOrderMax UInt64 where
  max_eq_or a b := by
    show (if a ≤ b then b else a) = a ∨ (if a ≤ b then b else a) = b
    split
    · exact Or.inr rfl
    · exact Or.inl rfl
  max_le_iff a b c := by
    show (if a ≤ b then b else a) ≤ c ↔ _
    simp only [UInt64.le_iff_toNat_le]
    split <;> omega

/-- The greatest of some words is one of them, if there is any, and none of them is greater. -/
theorem mem_or_eq_nil_max?_getD (ws : List UInt64) :
    (ws = [] ∨ ws.max?.getD 0 ∈ ws) ∧ ∀ w ∈ ws, w ≤ ws.max?.getD 0 := by
  cases hmax : ws.max? with
  | none =>
    obtain rfl := List.max?_eq_none_iff.1 hmax
    exact ⟨Or.inl rfl, nofun⟩
  | some m =>
    obtain ⟨hm, hle⟩ := List.max?_eq_some_iff.1 hmax
    exact ⟨Or.inr hm, hle⟩

namespace Program

variable {p q : Program} {slot : Nat}

theorem slotsNeeded_le_slotCount {i : Instruction} (h : i ∈ p.body) :
    i.slotsNeeded ≤ p.slotCount :=
  slotCount_le_iff.1 (Nat.le_refl _) i h

theorem two_dvd_slotCount (p : Program) : 2 ∣ p.slotCount := by
  -- What instructions need is even, so the count rounded down to an even number still bounds it.
  have hle : p.slotCount ≤ p.slotCount / 2 * 2 := slotCount_le_iff.2 fun i hi => by
    have heven := i.two_dvd_slotsNeeded
    have hneeded := slotsNeeded_le_slotCount hi
    omega
  omega

theorem slotCount_lt_maxWord (p : Program) : p.slotCount < maxWord := by
  have hle : p.slotCount ≤ maxWord - 1 :=
    slotCount_le_iff.2 fun i _ => Nat.le_sub_one_of_lt i.slotsNeeded_lt_maxWord
  exact Nat.lt_of_le_sub_one (by decide) hle

/-! ### The least number that is enough -/

/-- Threads have a slot that is saved to, if its number is not one of the two greatest words. -/
theorem lt_slotCount (h : slot ≤ maxWord - 2) (hslot : .save slot ∈ p.body) :
    slot < p.slotCount :=
  Nat.lt_of_lt_of_le (Instruction.lt_slotsNeeded_save h) (slotsNeeded_le_slotCount hslot)

/-- An even number above all slots that are saved to is enough. -/
theorem slotCount_le {n : Nat} (heven : 2 ∣ n) (h : ∀ slot, .save slot ∈ p.body → slot < n) :
    p.slotCount ≤ n :=
  slotCount_le_iff.2 fun i hi => by
    cases i with
    | save slot => exact Instruction.slotsNeeded_save_le heven (h slot hi)
    | _ => exact Nat.zero_le n

theorem isLeast_slotCount (h : ∀ slot, .save slot ∈ p.body → slot ≤ maxWord - 2) :
    IsLeast {n | 2 ∣ n ∧ ∀ slot, .save slot ∈ p.body → slot < n} p.slotCount :=
  ⟨⟨p.two_dvd_slotCount, fun slot hslot => lt_slotCount (h slot hslot) hslot⟩,
    fun _ hn => slotCount_le hn.1 hn.2⟩

/-- A slot whose number is one of the two greatest words is one too many. -/
theorem slotCount_eq_of_save (h : maxWord - 1 ≤ slot) (hslot : .save slot ∈ p.body) :
    p.slotCount = maxWord - 1 := by
  have hword := maxWord_eq
  have hneeded := slotsNeeded_le_slotCount hslot
  have hlt := p.slotCount_lt_maxWord
  rw [Instruction.slotsNeeded] at hneeded
  omega

/-! ### Programs with more instructions -/

theorem slotCount_mono (h : ∀ i ∈ p.body, i ∈ q.body) : p.slotCount ≤ q.slotCount :=
  slotCount_le_iff.2 fun i hi => slotsNeeded_le_slotCount (h i hi)

theorem slotCount_eq_of_perm (h : p.body.Perm q.body) : p.slotCount = q.slotCount :=
  Nat.le_antisymm (slotCount_mono fun _ => h.mem_iff.1) (slotCount_mono fun _ => h.mem_iff.2)

/-! ### Counting in words -/

/-- Words and numbers are counted alike: in words, the greatest of what the instructions need is
taken, and that is the least bound on it. -/
theorem toNat_slotWord (h : ∀ slot, .save slot ∈ p.body → slot ≤ maxWord) :
    p.slotWord.toNat = p.slotCount := by
  have hneeded {i : Instruction} {w : UInt64} (hi : i ∈ p.body) (hw : i.slotWord? = some w) :
      w.toNat = i.slotsNeeded :=
    Instruction.toNat_slotWord? hw fun slot heq => h slot (heq ▸ hi)
  have hmem {w : UInt64} : w ∈ p.body.toList.filterMap Instruction.slotWord? ↔
      ∃ i ∈ p.body, i.slotWord? = some w := by
    simp
  obtain ⟨hmax, hle⟩ := mem_or_eq_nil_max?_getD (p.body.toList.filterMap Instruction.slotWord?)
  refine Nat.le_antisymm ?_ (slotCount_le_iff.2 fun i hi => ?_)
  · rcases hmax with hnil | hmax
    · rw [slotWord, hnil]
      exact Nat.zero_le _
    · obtain ⟨i, hi, hw⟩ := hmem.1 hmax
      rw [slotWord, hneeded hi hw]
      exact slotsNeeded_le_slotCount hi
  · -- Instructions that do not save are passed over in words, and need nothing.
    cases i with
    | save slot =>
      rw [← hneeded hi rfl]
      exact UInt64.le_iff_toNat_le.1 (hle _ (hmem.2 ⟨_, hi, rfl⟩))
    | _ => exact Nat.zero_le _

end Program

end Lockstep
