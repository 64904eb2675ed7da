import Lockstep.Proofs.Machine.Walk
import Lockstep.Proofs.Program.Linking

/-!
# Programs that contain the code of a pattern

What matters about the code of a pattern is not its list of instructions but which instructions
stand at its entry and exit and how those of its parts are connected. This is said by a relation
with one rule for each way to build a pattern, on which the proofs about running a pattern are
inductions.

* `Program.Holds`: instructions stand in a program from a position on.
* `Program.Implements`: the code of a pattern stands between two positions.
* `Program.implements_layout`: the layout of a pattern implements it.
-/

namespace Lockstep

theorem Instruction.next?_of_consumes {i : Instruction} (h : i.consumes = true) (q : Nat) :
    i.next? q = none := by
  cases i <;> first | rfl | cases h

/-- A thread waits at an atom. -/
theorem Atom.next?_instruction (a : Atom) (q : Nat) : a.instruction.next? q = none :=
  Instruction.next?_of_consumes a.consumes_instruction q

theorem Atom.instruction_ne_accept (a : Atom) : a.instruction ≠ .accept :=
  Instruction.ne_of_consumes a.consumes_instruction rfl

namespace Program

/-- `code` stands in the program from position `base` on. -/
def Holds (p : Program) (base : Nat) (code : List Instruction) : Prop :=
  ∀ k i, code[k]? = some i → p.body[base + k]? = some i

section Holds

variable {p : Program} {base : Nat} {i : Instruction} {code xs ys : List Instruction}

theorem Holds.head (h : p.Holds base (i :: code)) : p.body[base]? = some i := h 0 i rfl

theorem Holds.tail (h : p.Holds base (i :: code)) : p.Holds (base + 1) code := by
  intro k j hk
  rw [Nat.add_assoc, Nat.add_comm 1 k]
  exact h (k + 1) j hk

theorem Holds.left (h : p.Holds base (xs ++ ys)) : p.Holds base xs := by
  intro k i hk
  obtain ⟨hlt, -⟩ := List.getElem?_eq_some_iff.1 hk
  exact h k i (by rwa [List.getElem?_append_left hlt])

theorem Holds.right (h : p.Holds base (xs ++ ys)) : p.Holds (base + xs.length) ys := by
  intro k i hk
  rw [Nat.add_assoc]
  exact h _ i (by rwa [List.getElem?_append_right (Nat.le_add_right _ _), Nat.add_sub_cancel_left])

end Holds

/-- `Implements p e opened entry exit` says that the code of `e` stands in `p` from position `entry`
on and goes on at `exit`, when `opened` groups have been opened before it. -/
inductive Implements (p : Program) : Pattern → Nat → Nat → Nat → Prop
  | atom {a opened entry} : p.body[entry]? = some a.instruction →
    Implements p (.atom a) opened entry (entry + 1)
  | group {body opened entry mid} : p.body[entry]? = some (.save (2 * opened)) →
    Implements p body (opened + 1) (entry + 1) mid →
    p.body[mid]? = some (.save (2 * opened + 1)) →
    Implements p (.group body) opened entry (mid + 1)
  | concat {first second opened entry mid exit} : Implements p first opened entry mid →
    Implements p second (opened + first.groupCount) mid exit →
    Implements p (.concat first second) opened entry exit
  | alternate {first second opened entry mid exit} :
    p.body[entry]? = some (.split (entry + 1) (mid + 1)) →
    Implements p first opened (entry + 1) mid → p.body[mid]? = some (.jump exit) →
    Implements p second (opened + first.groupCount) (mid + 1) exit →
    Implements p (.alternate first second) opened entry exit
  | star {body greedy opened entry back} :
    p.body[entry]? = some (.decide greedy (entry + 1) (back + 1)) →
    Implements p body opened (entry + 1) back → p.body[back]? = some (.jump entry) →
    Implements p (.repeated body .star greedy) opened entry (back + 1)
  | plus {body greedy opened entry mid} : Implements p body opened entry mid →
    p.body[mid]? = some (.decide greedy entry (mid + 1)) →
    Implements p (.repeated body .plus greedy) opened entry (mid + 1)
  | optional {body greedy opened entry exit} :
    p.body[entry]? = some (.decide greedy (entry + 1) exit) →
    Implements p body opened (entry + 1) exit →
    Implements p (.repeated body .optional greedy) opened entry exit

variable {p : Program}

theorem Implements.congr {e : Pattern} {opened entry exit exit' : Nat}
    (h : p.Implements e opened entry exit) (he : exit = exit') :
    p.Implements e opened entry exit' := he ▸ h

/-- A program that holds the code of a pattern implements it. -/
theorem Holds.implements {e : Pattern} {base opened : Nat} (h : p.Holds base (e.code base opened)) :
    p.Implements e opened base (base + e.codeSize) := by
  induction e generalizing base opened with
  | atom a => exact .atom h.head
  | group body ih =>
    have hclose := h.tail.right.head
    rw [Pattern.length_code] at hclose
    exact (Implements.group h.head (ih h.tail.left) hclose).congr (by rw [Pattern.codeSize]; omega)
  | concat first second ih₁ ih₂ =>
    have hsecond := h.right
    rw [Pattern.length_code] at hsecond
    exact (Implements.concat (ih₁ h.left) (ih₂ hsecond)).congr (by rw [Pattern.codeSize]; omega)
  | alternate first second ih₁ ih₂ =>
    have hmid : base + 2 + first.codeSize = base + 1 + first.codeSize + 1 := by omega
    have hexit : base + 1 + first.codeSize + 1 + second.codeSize =
        base + (Pattern.alternate first second).codeSize := by rw [Pattern.codeSize]; omega
    simp only [Pattern.code, hmid] at h
    rw [hexit] at h
    have hsecond := h.tail.right
    rw [Pattern.length_code] at hsecond
    exact .alternate h.head (ih₁ h.tail.left) hsecond.head ((ih₂ hsecond.tail).congr hexit)
  | repeated body quantifier greedy ih =>
    cases quantifier with
    | star =>
      have hback : base + 2 + body.codeSize = base + 1 + body.codeSize + 1 := by omega
      simp only [Pattern.code, hback] at h
      have hjump := h.tail.right.head
      rw [Pattern.length_code] at hjump
      exact (Implements.star h.head (ih h.tail.left) hjump).congr (by rw [Pattern.codeSize]; omega)
    | plus =>
      have hdecide := h.right.head
      rw [Pattern.length_code] at hdecide
      exact .plus (ih h.left) hdecide
    | optional =>
      have hexit : base + 1 + body.codeSize = base + (body.codeSize + 1) := by omega
      rw [Pattern.code, hexit] at h
      exact .optional h.head ((ih h.tail).congr hexit)

theorem holds_layout (e : Pattern) :
    (layout e).Holds 0 (e.code 0 0 ++ [Instruction.accept]) := by
  intro k i hk
  rw [Nat.zero_add, ← Array.getElem?_toList, toList_body_layout, hk]

/-- The layout of a pattern implements it from beginning to end. -/
theorem implements_layout (e : Pattern) : (layout e).Implements e 0 0 e.codeSize :=
  (holds_layout e).left.implements.congr (Nat.zero_add _)

/-- Behind the code of the pattern its layout accepts. -/
theorem getElem?_layout_codeSize (e : Pattern) : (layout e).body[e.codeSize]? = some .accept := by
  have h := (holds_layout e).right.head
  rwa [Pattern.length_code, Nat.zero_add] at h

end Program

end Lockstep
