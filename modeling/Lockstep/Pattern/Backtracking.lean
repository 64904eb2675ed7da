import Lockstep.Machine.Run
import Lockstep.Pattern.Basic

/-!
# Matching by backtracking

A pattern can be matched by trying one possibility after the other. The possibilities are listed in
the order in which they are tried: the first alternative before the second, a further occurrence of
a greedy body before what comes after it, and the other way round for a lazy one. What a failed
attempt has saved is forgotten, since each attempt carries its own slots.

A further occurrence must consume something, which makes no difference for a body that cannot match
the empty word.

* `Attempt`: the cells that are left, the current offset and the slots.
* `Attempt.iterate`: any number of occurrences of a body.
* `Pattern.attempts`: the ways to match a pattern, in order; `Pattern.backtrack`: the first of them.
-/

namespace Lockstep

/-- A point in the search for a match. -/
structure Attempt where
  /-- The cells that are left. -/
  rest : List Cell
  offset : Nat
  slots : Slots
  deriving DecidableEq, Repr

namespace Attempt

/-- An attempt that has saved its offset in a slot. -/
def save (slot : Nat) (a : Attempt) : Attempt :=
  { a with slots := a.slots.setIfInBounds slot (some a.offset) }

/-- The attempt behind a cell that an atom accepts. -/
def consume (atom : Atom) (a : Attempt) : List Attempt :=
  match a.rest with
  | [] => []
  | cell :: rest => if atom.accepts cell.char then [⟨rest, a.offset + cell.width, a.slots⟩] else []

/-- The attempts behind any number of occurrences of a body, each of which consumes something. -/
def iterate (body : Attempt → List Attempt) (greedy : Bool) (a : Attempt) : List Attempt :=
  let shorter := (body a).filter fun b => b.rest.length < a.rest.length
  let again := shorter.attach.flatMap fun b => iterate body greedy b.1
  if greedy then again ++ [a] else a :: again
  termination_by a.rest.length
  decreasing_by simpa using (List.mem_filter.1 b.2).2

end Attempt

namespace Pattern

/-- The attempts behind a match of a pattern, in the order in which they are tried; `opened` opening
parentheses stand before the pattern. -/
def attempts : Pattern → Nat → Attempt → List Attempt
  | atom a, _, start => start.consume a
  | group body, opened, start =>
    (body.attempts (opened + 1) (start.save (2 * opened))).map (Attempt.save (2 * opened + 1))
  | concat first second, opened, start =>
    (first.attempts opened start).flatMap (second.attempts (opened + first.groupCount))
  | alternate first second, opened, start =>
    first.attempts opened start ++ second.attempts (opened + first.groupCount) start
  | repeated body .star greedy, opened, start => start.iterate (body.attempts opened) greedy
  | repeated body .plus greedy, opened, start =>
    (body.attempts opened start).flatMap (Attempt.iterate (body.attempts opened) greedy)
  | repeated body .optional greedy, opened, start =>
    if greedy then body.attempts opened start ++ [start] else start :: body.attempts opened start

/-- The first match of a pattern that the search comes to. -/
def backtrack (e : Pattern) (cells : List Cell) (start : Nat) : Option Found :=
  (e.attempts 0 ⟨cells, start, Array.replicate (2 * e.groupCount) none⟩).head?.map fun a =>
    ⟨a.offset, a.slots⟩

end Pattern

end Lockstep
