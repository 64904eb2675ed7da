import Lockstep.Machine.Run

/-!
# Paths through a program

The machine read as a nondeterministic one: a single thread that chooses a target at each `split`.
It enters no position twice at one offset, since it would only come back to where it was.

* `Path`: the accepting paths from a position, with the choices made on the way, the offset where
  the path ends and the slots that it has saved.

Of two paths the one with the smaller choices has priority, where choices are compared from the
first on and `false`, the first target, comes before `true`.
-/

namespace Lockstep

/-- `Path p cells offset position slots entered choices finish saved` says that a thread at
`position` with `slots` accepts at offset `finish` with the slots `saved` if it makes the given
`choices`; `cells` are the cells from `offset` on, and `entered` are the positions that the thread
has entered at this offset. -/
inductive Path (p : Program) : List Cell → Nat → Nat → Slots → List Nat → List Bool → Nat → Slots →
    Prop
  | accept {cells offset position slots entered} :
    p.body[position]? = some .accept → position ∉ entered →
    Path p cells offset position slots entered [] offset slots
  | jump {cells offset position slots entered target choices finish saved} :
    p.body[position]? = some (.jump target) → position ∉ entered →
    Path p cells offset target slots (position :: entered) choices finish saved →
    Path p cells offset position slots entered choices finish saved
  | first {cells offset position slots entered first second choices finish saved} :
    p.body[position]? = some (.split first second) → position ∉ entered →
    Path p cells offset first slots (position :: entered) choices finish saved →
    Path p cells offset position slots entered (false :: choices) finish saved
  | second {cells offset position slots entered first second choices finish saved} :
    p.body[position]? = some (.split first second) → position ∉ entered →
    Path p cells offset second slots (position :: entered) choices finish saved →
    Path p cells offset position slots entered (true :: choices) finish saved
  | save {cells offset position slots entered slot choices finish saved} :
    p.body[position]? = some (.save slot) → position ∉ entered →
    Path p cells offset (position + 1) (slots.setIfInBounds slot (some offset))
      (position :: entered) choices finish saved →
    Path p cells offset position slots entered choices finish saved
  | consume {cell cells offset position slots entered i choices finish saved} :
    p.body[position]? = some i → i.accepts cell.char = true → position ∉ entered →
    Path p cells (offset + cell.width) (position + 1) slots [] choices finish saved →
    Path p (cell :: cells) offset position slots entered choices finish saved

end Lockstep
