/-!
# Tables of character ranges

A property of characters is given by the inclusive ranges of codes that have it.

* `Unicode.RangeTable.contains`: membership of a character.
-/

namespace Lockstep.Unicode

/-- A set of characters as inclusive ranges of codes. -/
structure RangeTable where
  ranges : Array (Nat × Nat)

namespace RangeTable

/-- Whether the code of `c` lies in one of the ranges. -/
def contains (table : RangeTable) (c : Char) : Bool :=
  table.ranges.any fun (lo, hi) => decide (lo ≤ c.toNat ∧ c.toNat ≤ hi)

theorem contains_iff {table : RangeTable} {c : Char} :
    table.contains c = true ↔ ∃ range ∈ table.ranges, range.1 ≤ c.toNat ∧ c.toNat ≤ range.2 := by
  rw [contains, Array.any_eq_true']
  simp

end RangeTable

end Lockstep.Unicode
