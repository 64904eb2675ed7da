import Lockstep.Program.OfPattern

/-!
# The layout of a program

Where the instructions of a pattern stand in its program, position by position. Every part of a
pattern goes on right behind its own code, so the targets of `jump` and `split` are sums of the
sizes of parts, and the slots of a group are found by counting opening parentheses from the left.

* `Pattern.codeSize`: the number of instructions of a pattern; `Pattern.codeSize_eq` counts them by
  what they come from.
* `Pattern.code e base opened`: the instructions of `e` at position `base`, when `opened` groups
  have been opened before it.
* `Program.layout`: the code of a pattern with an `accept` behind it.
-/

namespace Lockstep

namespace Pattern

/-- The number of instructions of a pattern. -/
def codeSize : Pattern → Nat
  | atom _ => 1
  | group body => body.codeSize + 2
  | concat first second => first.codeSize + second.codeSize
  | alternate first second => first.codeSize + second.codeSize + 2
  | repeated body .star _ => body.codeSize + 2
  | repeated body .plus _ => body.codeSize + 1
  | repeated body .optional _ => body.codeSize + 1

/-- The number of atoms in a pattern. -/
def atomCount : Pattern → Nat
  | atom _ => 1
  | group body => body.atomCount
  | concat first second => first.atomCount + second.atomCount
  | alternate first second => first.atomCount + second.atomCount
  | repeated body _ _ => body.atomCount

/-- The number of bars in a pattern. -/
def barCount : Pattern → Nat
  | atom _ => 0
  | group body => body.barCount
  | concat first second => first.barCount + second.barCount
  | alternate first second => first.barCount + second.barCount + 1
  | repeated body _ _ => body.barCount

/-- How often a quantifier occurs in a pattern, greedy or lazy. -/
def quantifierCount (q : Quantifier) : Pattern → Nat
  | atom _ => 0
  | group body => body.quantifierCount q
  | concat first second => first.quantifierCount q + second.quantifierCount q
  | alternate first second => first.quantifierCount q + second.quantifierCount q
  | repeated body q' _ => body.quantifierCount q + if q' = q then 1 else 0

/-- Atoms, `+` and `?` make one instruction each, groups, `*` and bars make two. -/
theorem codeSize_eq (e : Pattern) :
    e.codeSize = e.atomCount + 2 * e.groupCount + 2 * e.quantifierCount .star +
      e.quantifierCount .plus + e.quantifierCount .optional + 2 * e.barCount := by
  induction e with
  | atom a => rfl
  | group body ih =>
    simp only [codeSize, atomCount, groupCount, quantifierCount, barCount]
    omega
  | concat first second ih₁ ih₂ =>
    simp only [codeSize, atomCount, groupCount, quantifierCount, barCount]
    omega
  | alternate first second ih₁ ih₂ =>
    simp only [codeSize, atomCount, groupCount, quantifierCount, barCount]
    omega
  | repeated body q greedy ih =>
    cases q with
    | star | plus | optional =>
      simp only [codeSize, atomCount, groupCount, quantifierCount, barCount, reduceCtorEq, if_true,
        if_false]
      omega

/-- The instructions of a pattern at position `base`, behind `opened` opening parentheses. -/
def code : Pattern → Nat → Nat → List Instruction
  | atom a, _, _ => [a.instruction]
  | group body, base, opened =>
    .save (2 * opened) :: body.code (base + 1) (opened + 1) ++ [.save (2 * opened + 1)]
  | concat first second, base, opened =>
    first.code base opened ++ second.code (base + first.codeSize) (opened + first.groupCount)
  | alternate first second, base, opened =>
    let middle := base + 2 + first.codeSize
    .split (base + 1) middle :: first.code (base + 1) opened ++
      .jump (middle + second.codeSize) :: second.code middle (opened + first.groupCount)
  | repeated body .star greedy, base, opened =>
    .decide greedy (base + 1) (base + 2 + body.codeSize) :: body.code (base + 1) opened ++
      [.jump base]
  | repeated body .plus greedy, base, opened =>
    body.code base opened ++ [.decide greedy base (base + body.codeSize + 1)]
  | repeated body .optional greedy, base, opened =>
    .decide greedy (base + 1) (base + 1 + body.codeSize) :: body.code (base + 1) opened

@[simp] theorem length_code (e : Pattern) (base opened : Nat) :
    (e.code base opened).length = e.codeSize := by
  induction e generalizing base opened with
  | atom a => rfl
  | group body ih => simp [code, codeSize, ih]
  | concat first second ih₁ ih₂ => simp [code, codeSize, ih₁, ih₂]
  | alternate first second ih₁ ih₂ => simp [code, codeSize, ih₁, ih₂]; omega
  | repeated body quantifier greedy ih =>
    cases quantifier <;> simp [code, codeSize, ih]

/-- A group costs as many instructions as slots. -/
theorem two_mul_groupCount_le (e : Pattern) : 2 * e.groupCount ≤ e.codeSize := by
  induction e with
  | atom a => exact Nat.zero_le _
  | group body ih => simp only [groupCount, codeSize]; omega
  | concat first second ih₁ ih₂ => simp only [groupCount, codeSize]; omega
  | alternate first second ih₁ ih₂ => simp only [groupCount, codeSize]; omega
  | repeated body quantifier greedy ih =>
    cases quantifier <;> simp only [groupCount, codeSize] <;> omega

end Pattern

/-- The code of a pattern from position zero on, with an `accept` behind it. -/
def Program.layout (e : Pattern) : Program := .ofBody (e.code 0 0 ++ [Instruction.accept]).toArray

theorem Program.size_layout (e : Pattern) : (layout e).size = e.codeSize + 1 := by
  simp [layout, size]

end Lockstep
