import Lockstep.Program.Basic

/-!
# Chains of code under construction

While a program is being put together, its instructions carry labels in place of positions. A
chain is a piece of code that is entered at its first instruction and left at its exit, a label
that has no instruction yet. Chains are joined by letting the exit of one stand for the entry of
the next: the label is *forwarded*. When everything is one chain, linking follows the forwarding,
turns labels into positions, and puts an `accept` at the exit.

* `Labels`: the labels handed out so far, with the label that each is forwarded to, itself to
  begin with.
* `Fragment`: an instruction with its label; the positions that it names are labels.
* `Chain`, with `Chain.entry` and `Chain.fragments`, which ends with the `accept` at the exit.
* `Labels.resolve`: the end of the forwarding from a label.
* `Chain.link`: the instructions of a chain with positions for labels.
-/

namespace Lockstep

/-- The labels handed out so far: entry `i` is the label that label `i` is forwarded to. -/
structure Labels where
  table : Array Nat

namespace Labels

/-- No labels. -/
def none : Labels := ⟨#[]⟩

/-- The number of labels. -/
def size (labels : Labels) : Nat := labels.table.size

/-- The next label to be handed out. -/
def next (labels : Labels) : Nat := labels.size

/-- The labels after one more has been handed out, which stands for itself. -/
def add (labels : Labels) : Labels := ⟨labels.table.push labels.size⟩

/-- The labels after `source` has been made to stand for `target`. -/
def forward (labels : Labels) (source target : Nat) : Labels :=
  ⟨labels.table.setIfInBounds source target⟩

/-- The label that `label` stands for directly. -/
def apply (labels : Labels) (label : Nat) : Nat := labels.table[label]?.getD label

/-- The label reached after at most `steps` forwardings. -/
def follow (labels : Labels) : Nat → Nat → Nat
  | 0, label => label
  | steps + 1, label =>
    let next := labels.apply label
    if next = label then label else follow labels steps next

/-- The label at the end of the forwarding from `label`. Forwarding that never returns to a label
passes each label at most once, so no more steps than labels are needed. -/
def resolve (labels : Labels) (label : Nat) : Nat := labels.follow labels.size label

end Labels

/-- An instruction with its label. The positions that the instruction names are labels. -/
structure Fragment where
  label : Nat
  instruction : Instruction
  deriving DecidableEq, Repr

/-- Code that is entered at `head` and left at the label `exit`. -/
structure Chain where
  head : Fragment
  tail : List Fragment
  exit : Nat
  deriving DecidableEq, Repr

namespace Chain

/-- The label of the first instruction of a chain. -/
def entry (chain : Chain) : Nat := chain.head.label

/-- The instructions of a chain, without the one at its exit. -/
def code (chain : Chain) : List Fragment := chain.head :: chain.tail

/-- The instructions of a chain, with an `accept` at its exit. -/
def fragments (chain : Chain) : List Fragment := chain.code ++ [⟨chain.exit, .accept⟩]

/-- The number of instructions of a chain, with the one at its exit. -/
def size (chain : Chain) : Nat := chain.tail.length + 2

theorem length_fragments (chain : Chain) : chain.fragments.length = chain.size := by
  simp [fragments, code, size]

/-- Where each label is placed when fragments are laid out in a row. A label without a fragment is
placed behind them, where no thread can run. -/
def positions (labels : Labels) (fragments : List Fragment) : Array Nat :=
  fragments.zipIdx.foldl (fun placed (fragment, ix) => placed.setIfInBounds fragment.label ix)
    (Array.replicate labels.size fragments.length)

/-- The instructions of a chain, with the positions of labels in place of the labels. -/
def link (labels : Labels) (chain : Chain) : Array Instruction :=
  let placed := positions labels chain.fragments
  let position := fun label => placed[labels.resolve label]?.getD chain.size
  (chain.fragments.map fun fragment => fragment.instruction.mapTargets position).toArray

theorem size_link (labels : Labels) (chain : Chain) : (chain.link labels).size = chain.size := by
  simp [link, length_fragments]

end Chain

end Lockstep
