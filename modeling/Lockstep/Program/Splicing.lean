import Lockstep.Program.OfPattern

/-!
# Splicing rows of fragments

A program can also be put together from plain rows of fragments. Nothing about a row says that it
is in order: that an `accept` stands at its end, that there is a fragment to go on at, or that a
label has been handed out, has to be checked each time that it is relied on, and following the
forwarding of a label need not end at a fragment. Where such a check fails, there is no result.

The branches of a choice leave at one exit, which is handed out before any of them. A branch is
built before its `split`, and the `split` before the branch that it leads to next, so its second
target is a label without a fragment, which is forwarded as soon as that branch has an entry.

* `Row`, `Assembly`: rows of fragments, and building them with checks.
* `Assembly.redirect`, `Assembly.join`: a row whose end is made to go on elsewhere.
* `Purpose`: what a row is built for; `Pattern.assemble` builds the row of a pattern.
* `Labels.Forwards`: one step of the forwarding; `Labels.resolve?`: its end, if there is one.
* `Row.position?`, `Row.link?`: the instructions of a row with positions for labels, with the checks
  of linking.
-/

namespace Lockstep

/-- Fragments one after the other. -/
abbrev Row := List Fragment

/-- Building rows while handing out labels and slots, with checks that may fail. -/
abbrev Assembly := StateT Emitter Option

namespace Assembly

/-- A new label. -/
def newLabel : Assembly Nat :=
  modifyGet fun s => (s.labels.next, { s with labels := s.labels.add })

/-- The first of a new pair of slots. -/
def newSlots : Assembly Nat :=
  modifyGet fun s => (s.nextSlot, { s with nextSlot := s.nextSlot + 2 })

/-- An instruction with a new label. -/
def newFragment (i : Instruction) : Assembly Fragment := do
  let label ← newLabel
  return ⟨label, i⟩

/-- The row of one instruction. -/
def single (i : Instruction) : Assembly Row := do
  let first ← newFragment i
  let last ← newFragment .accept
  return [first, last]

/-- The label of the first fragment of a row, which has to be there. -/
def entry : Row → Assembly Nat
  | [] => failure
  | first :: _ => return first.label

/-- Makes the label `source`, which has to have been handed out, stand for the label `target`. -/
def retarget (source target : Nat) : Assembly Unit := do
  let s ← get
  guard (source < s.labels.size)
  set { s with labels := s.labels.forward source target }

/-- Lets a row go on at `target` in place of the `accept` that has to be at its end. -/
def redirect (row : Row) (target : Nat) : Assembly Row :=
  match row.getLast? with
  | none => return []
  | some last => do
    guard (last.instruction = .accept)
    return row.dropLast ++ [⟨last.label, .jump target⟩]

/-- One row after the other. The `accept` that has to be at the end of the first is taken away, and
its label stands for the entry of the second. -/
def join (first second : Row) : Assembly Row :=
  match first.getLast? with
  | none => return second
  | some last => do
    guard (last.instruction = .accept)
    retarget last.label (← entry second)
    return first.dropLast ++ second

/-- Makes the label that an entry was left to, if there is one, stand for the entry of a row. -/
def settle (pending : Option Nat) (row : Row) : Assembly Unit :=
  match pending with
  | none => return ()
  | some label => do retarget label (← entry row)

/-- Opens a branch of a choice that is not the last one: behind the row `earlier` come a `split`,
for which `pending` was left, and the branch, which goes on at `exit`. The entry of the next branch
is left to the label that is returned. -/
def openBranch (earlier : Row) (exit : Fragment) (pending : Option Nat) (branch : Row) :
    Assembly (Row × Nat) := do
  let first ← entry branch
  let rest ← newLabel
  let split ← newFragment (.split first rest)
  settle pending [split]
  let branch ← redirect branch exit.label
  return (earlier ++ split :: branch, rest)

/-- Closes a choice with its last branch. -/
def closeBranch (earlier : Row) (exit : Fragment) (pending : Option Nat) (branch : Row) :
    Assembly Row := do
  settle pending branch
  let branch ← join branch [exit]
  return earlier ++ branch

end Assembly

/-- What the row of a pattern is built for. -/
inductive Purpose where
  /-- To be used as it is. -/
  | whole
  /-- To follow the row of the parts of a concatenation in front of it. -/
  | behind (earlier : Row)
  /-- To follow the row of the branches of a choice in front of it, which leave at `exit` and have
  left the entry of the next branch to the label `pending`. -/
  | branch (earlier : Row) (exit : Fragment) (pending : Option Nat)

open Assembly

/-- Uses a row that has been built as a whole for its purpose. -/
def Purpose.finish (row : Row) : Purpose → Assembly Row
  | whole => return row
  | behind earlier => join earlier row
  | branch earlier exit pending => closeBranch earlier exit pending row

/-- The row of a pattern. The parts of a concatenation and the branches of a choice are gone through
one after the other. -/
def Pattern.assemble : Pattern → Purpose → Assembly Row
  | atom a, purpose => do
    let row ← single a.instruction
    purpose.finish row
  | group body, purpose => do
    let slot ← newSlots
    let opening ← single (.save slot)
    let body ← body.assemble .whole
    let opened ← join opening body
    let closing ← single (.save (slot + 1))
    let row ← join opened closing
    purpose.finish row
  | concat first second, .behind earlier => do
    let next ← first.assemble .whole
    let row ← join earlier next
    second.assemble (.behind row)
  | concat first second, purpose => do
    let row ← first.assemble .whole
    let row ← second.assemble (.behind row)
    purpose.finish row
  | alternate first second, .branch earlier exit pending => do
    let next ← first.assemble .whole
    let (row, rest) ← openBranch earlier exit pending next
    second.assemble (.branch row exit (some rest))
  | alternate first second, purpose => do
    let exit ← newFragment .accept
    let next ← first.assemble .whole
    let (row, rest) ← openBranch [] exit none next
    let row ← second.assemble (.branch row exit (some rest))
    purpose.finish row
  | repeated body .star greedy, purpose => do
    let body ← body.assemble .whole
    let entry ← entry body
    let exit ← newFragment .accept
    let split ← newFragment (.decide greedy entry exit.label)
    let back ← newFragment (.jump split.label)
    let body ← join body [back]
    purpose.finish (split :: body ++ [exit])
  | repeated body .plus greedy, purpose => do
    let body ← body.assemble .whole
    let entry ← entry body
    let exit ← newFragment .accept
    let split ← newFragment (.decide greedy entry exit.label)
    let row ← join body [split, exit]
    purpose.finish row
  | repeated body .optional greedy, purpose => do
    let body ← body.assemble .whole
    let entry ← entry body
    let exit ← newFragment .accept
    let split ← newFragment (.decide greedy entry exit.label)
    let body ← join body [exit]
    purpose.finish (split :: body)

/-! ### Linking -/

namespace Labels

/-- The label `source` has been handed out and stands for the other label `target`. -/
def Forwards (labels : Labels) (source target : Nat) : Prop :=
  labels.table[source]? = some target ∧ target ≠ source

/-- The end of the forwarding from `label`: a label that has been handed out and stands for itself.
There is none if the forwarding leads astray. -/
def resolve? (labels : Labels) (label : Nat) : Option Nat := do
  let last := labels.resolve label
  guard (labels.table[last]? = some last)
  return last

end Labels

/-- An instruction with every named position replaced, if all of them can be. -/
def Instruction.mapTargets? (f : Nat → Option Nat) : Instruction → Option Instruction
  | jump target => jump <$> f target
  | split first second => split <$> f first <*> f second
  | i => some i

/-- The position in a row that a label leads to, where a fragment has to be. -/
def Row.position? (labels : Labels) (row : Row) (label : Nat) : Option Nat := do
  let last ← labels.resolve? label
  let position ← (Chain.positions labels row)[last]?
  guard (position < row.length)
  return position

/-- The instructions of a row, with the positions of labels in place of the labels, which have to
have been handed out. -/
def Row.link? (labels : Labels) (row : Row) : Option (List Instruction) := do
  guard (∀ fragment ∈ row, fragment.label < labels.size)
  row.mapM (·.instruction.mapTargets? (row.position? labels))

end Lockstep
