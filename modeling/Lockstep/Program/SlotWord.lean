import Lockstep.Program.Basic

/-!
# Counting slots in words

The number of slots of a program is counted with numbers that stop at the greatest word. Here it is
counted with words themselves: two is added to a slot, but not beyond the greatest word, the lowest
bit of the sum is cleared, and the greatest word that comes out is the count.

* `saturatingAdd`, `clearLowBit`: the two operations, with what they are on numbers.
* `Instruction.slotWord?`: the slots that a thread needs for an instruction that saves.
* `Program.slotWord`: the number of slots of a program.
-/

namespace Lockstep

/-- The sum of two words, or the greatest word if the sum does not fit in one: a sum that has
wrapped around is less than what was added to. -/
def saturatingAdd (a b : UInt64) : UInt64 :=
  if a + b < a then .ofNat maxWord else a + b

/-- A word with its lowest bit cleared. -/
def clearLowBit (w : UInt64) : UInt64 := w &&& ~~~1

theorem toNat_saturatingAdd (a b : UInt64) :
    (saturatingAdd a b).toNat = min (a.toNat + b.toNat) maxWord := by
  have ha := a.toNat_lt
  have hb := b.toNat_lt
  have hword := maxWord_eq
  have hmax : (UInt64.ofNat maxWord).toNat = maxWord := rfl
  have hsum : (a + b).toNat = (a.toNat + b.toNat) % 2 ^ 64 := UInt64.toNat_add a b
  rw [saturatingAdd]
  split
  case isTrue h =>
    -- The sum has wrapped around, which it does once at most.
    rw [UInt64.lt_iff_toNat_lt, hsum] at h
    rw [hmax]
    omega
  case isFalse h =>
    rw [UInt64.lt_iff_toNat_lt, hsum] at h
    rw [hsum]
    omega

/-- A word shifted there and back has lost its lowest bit. -/
theorem toNat_clearLowBit (w : UInt64) : (clearLowBit w).toNat = w.toNat / 2 * 2 := by
  have hlt := w.toNat_lt
  have hmask : ~~~1#64 = BitVec.allOnes 64 <<< 1 := by decide
  calc (clearLowBit w).toNat = (w.toBitVec &&& ~~~1#64).toNat := rfl
    _ = (w.toBitVec >>> 1 <<< 1).toNat := by rw [hmask, BitVec.shiftLeft_ushiftRight]
    _ = w.toNat / 2 * 2 % 2 ^ 64 := by
      rw [BitVec.toNat_shiftLeft, BitVec.toNat_ushiftRight, Nat.shiftLeft_eq,
        Nat.shiftRight_eq_div_pow]
      rfl
    _ = w.toNat / 2 * 2 := Nat.mod_eq_of_lt (by omega)

/-- The slots that a thread needs for an instruction that saves, as a word: whole pairs, up to and
including the slot that it saves to, whose number has to be a word. -/
def Instruction.slotWord? : Instruction → Option UInt64
  | save slot => some (clearLowBit (saturatingAdd (.ofNat slot) 2))
  | _ => none

/-- The number of slots that the threads of a program carry, as a word. -/
def Program.slotWord (p : Program) : UInt64 :=
  (p.body.toList.filterMap Instruction.slotWord?).max?.getD 0

end Lockstep
