import Lockstep.Proofs.Pattern.Widening
import Lockstep.Proofs.Regex.Build
import Lockstep.Proofs.Regex.Search

/-!
# Bytes and characters

Bytes stand for characters, and it makes no difference whether these are given as bytes or in UTF-8:
the same pattern is read from them, and a program finds the same in them. A byte from 128 on takes
two bytes in UTF-8, so offsets have to be replaced by those of the widened text.

* `Match.relocate`, `Captures.relocate`: what is found, read as something found in another text.
* `Error.relocate`: why no regex could be built, with another offset in the pattern.
* `Regex.searches_widened`: runs and scans of bytes and of their widened text.
* `Regex.build_widened`: regexes built from bytes and from their widened text.
-/

namespace Lockstep

/-- A match at other offsets of another text. -/
def Match.relocate (t : Text) (φ : Nat → Nat) (m : Match) : Match := ⟨t, φ m.start, φ m.finish⟩

/-- Captures at other offsets of another text. -/
def Captures.relocate (t : Text) (φ : Nat → Nat) (c : Captures) : Captures :=
  ⟨t, φ c.start, φ c.finish, c.slots.relocate φ⟩

/-- The reason why no regex could be built, with another offset in the pattern. -/
def Error.relocate (φ : Nat → Nat) : Error → Error
  | pattern e => pattern (e.relocate φ)
  | e => e

namespace Regex

open Text

/-- **Bytes and characters.** From corresponding offsets on, a program does the same on some bytes
and on the text of their characters, and scans with a regex answer and report the same, whatever
either regex has searched before. -/
theorem searches_widened (re : Regex) (bytes : List UInt8) (i : Nat) :
    let φ := widenedOffset bytes
    φ bytes.length = (widened bytes).size ∧
      re.program.run (widened bytes) (φ i) = (re.program.run (narrow bytes) i).relocate φ ∧
      (∃ found lines, (re.findAt (narrow bytes) i).Yields found lines ∧
        (re.findAt (widened bytes) (φ i)).Yields (found.map (Match.relocate (widened bytes) φ))
          (lines.map (LogLine.relocate φ))) ∧
      ∃ found lines, (re.capturesAt (narrow bytes) i).Yields found lines ∧
        (re.capturesAt (widened bytes) (φ i)).Yields
          (found.map (Captures.relocate (widened bytes) φ)) (lines.map (LogLine.relocate φ)) := by
  intro φ
  have haligned := aligned_widened bytes i
  have hpos : ∀ cell ∈ (narrow bytes).cellsFrom i, 0 < cell.width :=
    fun _ => width_pos_of_mem_cellsFrom
  have hpos' : ∀ cell ∈ (widened bytes).cellsFrom (φ i), 0 < cell.width :=
    fun _ => width_pos_of_mem_cellsFrom
  obtain ⟨found, lines, hscan, hscan'⟩ := re.exists_yields_scan haligned hpos hpos'
  refine ⟨widenedOffset_length bytes, re.program.runFrom_eq_relocate haligned hpos hpos' _ _,
    ⟨_, lines, yields_findAt hscan, ?_⟩, _, lines, yields_capturesAt hscan, ?_⟩
  · have h := yields_findAt hscan'
    rw [Option.map_map] at h ⊢
    exact h
  · have h := yields_capturesAt hscan'
    rw [Option.map_map] at h ⊢
    exact h

/-- **Patterns of bytes and of characters.** A regex is built from some bytes just if it is built
from the text of their characters, and then it is the same one. Otherwise both fail alike, and a
fault in the pattern is found at corresponding offsets. -/
theorem build_widened (options : Options) (bytes : List UInt8) :
    let φ := widenedOffset bytes
    φ bytes.length = (widened bytes).size ∧
      build options (.pattern (widened bytes)) =
        (build options (.pattern (narrow bytes))).mapError (Error.relocate φ) := by
  refine ⟨widenedOffset_length bytes, ?_⟩
  rw [build_pattern, build_pattern, Pattern.ofText_widened]
  cases Pattern.ofText (narrow bytes) with
  | error e => rfl
  | ok e =>
    by_cases hlimit : options.sizeLimit < e.codeSize + 1
    · simp only [Except.mapError, if_pos hlimit]
      rfl
    · simp only [Except.mapError, if_neg hlimit]
      rfl

end Regex

end Lockstep
