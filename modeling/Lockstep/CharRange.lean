/-!
# Inclusive ranges of characters

* `CharRange.contains`: membership in one range.
* `CharRange.anyContains`: membership in the union of a list of ranges.

A range whose ends are in the wrong order holds no character.
-/

namespace Lockstep

/-- The characters from `lo` to `hi`, both included. -/
structure CharRange where
  lo : Char
  hi : Char
  deriving DecidableEq, Repr

namespace CharRange

/-- The range of one character. -/
def single (c : Char) : CharRange := ⟨c, c⟩

/-- Whether a character lies in a range. -/
def contains (range : CharRange) (c : Char) : Bool := decide (range.lo ≤ c ∧ c ≤ range.hi)

/-- Whether a character lies in one of several ranges. -/
def anyContains (ranges : List CharRange) (c : Char) : Bool := ranges.any (·.contains c)

theorem contains_iff {range : CharRange} {c : Char} :
    range.contains c = true ↔ range.lo ≤ c ∧ c ≤ range.hi := by
  simp [contains]

@[simp] theorem contains_single {c d : Char} : (single d).contains c = decide (c = d) := by
  have h : d ≤ c ∧ c ≤ d ↔ c = d :=
    ⟨fun h => Char.le_antisymm h.2 h.1, fun h => h ▸ ⟨Char.le_refl _, Char.le_refl _⟩⟩
  simp [contains, single, h]

theorem anyContains_iff {ranges : List CharRange} {c : Char} :
    anyContains ranges c = true ↔ ∃ range ∈ ranges, range.lo ≤ c ∧ c ≤ range.hi := by
  simp [anyContains, contains_iff]

@[simp] theorem anyContains_append (xs ys : List CharRange) (c : Char) :
    anyContains (xs ++ ys) c = (anyContains xs c || anyContains ys c) := by
  simp [anyContains]

end CharRange

end Lockstep
