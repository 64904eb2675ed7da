import Lockstep.Pattern.Grammar

/-!
# Patterns that can be written

The tree of a pattern has no parentheses besides those of its groups, so not every tree is one that
a text can write. What is repeated has to be an operand, and concatenations and alternatives are
nested to the right, which makes them lists that are not empty: a writable pattern is a list of
alternatives, each of them a list of pieces, and a piece is an atom or a group that may be
repeated. A class has at least one member, and the ends of its ranges are in order.

* `Pattern.part`, `Pattern.Fits`: which parts of a pattern a tree can be.
* `Pattern.Writable`: the trees that can be written.
* `Pattern.depth`: how many groups stand inside each other.
* `Pattern.atoms`: the atoms of a pattern, from left to right.
-/

namespace Lockstep

/-- Whether the ends of a range are in order. -/
def ClassItem.Writable : ClassItem → Prop
  | range lo hi => lo ≤ hi
  | _ => True

instance (item : ClassItem) : Decidable item.Writable :=
  match item with
  | .range lo hi => inferInstanceAs (Decidable (lo ≤ hi))
  | .single _ | .shorthand _ => .isTrue trivial

/-- Whether an atom that is a class has members, all of them in order. -/
def Atom.Writable : Atom → Prop
  | bracket _ items => items ≠ [] ∧ ∀ item ∈ items, item.Writable
  | _ => True

instance (a : Atom) : Decidable a.Writable :=
  match a with
  | .bracket _ items => inferInstanceAs (Decidable (items ≠ [] ∧ ∀ item ∈ items, item.Writable))
  | .literal _ | .any | .shorthand _ _ => .isTrue trivial

namespace Pattern

/-- How wide a part is; the wider ones are made of the narrower ones. -/
def Part.rank : Part → Nat
  | operand => 0
  | piece => 1
  | concatenation => 2
  | alternation => 3

/-- The narrowest part of a pattern that a tree can be. -/
def part : Pattern → Part
  | atom _ | group _ => .operand
  | repeated _ _ _ => .piece
  | concat _ _ => .concatenation
  | alternate _ _ => .alternation

/-- Whether a tree can be a part of a pattern. -/
def Fits (e : Pattern) (part : Part) : Prop := e.part.rank ≤ part.rank

instance (e : Pattern) (part : Part) : Decidable (e.Fits part) :=
  inferInstanceAs (Decidable (_ ≤ _))

/-- Whether a pattern can be written. -/
def Writable : Pattern → Prop
  | atom a => a.Writable
  | group body => body.Writable
  | concat first rest =>
    first.Fits .piece ∧ rest.Fits .concatenation ∧ first.Writable ∧ rest.Writable
  | alternate first rest => first.Fits .concatenation ∧ first.Writable ∧ rest.Writable
  | repeated body _ _ => body.Fits .operand ∧ body.Writable

/-- Whether a pattern can be written is decided along its tree. -/
def decidableWritable : (e : Pattern) → Decidable e.Writable
  | atom a => inferInstanceAs (Decidable a.Writable)
  | group body => decidableWritable body
  | concat first rest =>
    have := decidableWritable first
    have := decidableWritable rest
    inferInstanceAs (Decidable (_ ∧ _ ∧ first.Writable ∧ rest.Writable))
  | alternate first rest =>
    have := decidableWritable first
    have := decidableWritable rest
    inferInstanceAs (Decidable (_ ∧ first.Writable ∧ rest.Writable))
  | repeated body _ _ =>
    have := decidableWritable body
    inferInstanceAs (Decidable (_ ∧ body.Writable))

instance (e : Pattern) : Decidable e.Writable := decidableWritable e

/-- How many groups of a pattern stand inside each other. -/
def depth : Pattern → Nat
  | atom _ => 0
  | group body => body.depth + 1
  | concat first second | alternate first second => max first.depth second.depth
  | repeated body _ _ => body.depth

/-- The atoms of a pattern, from left to right. -/
def atoms : Pattern → List Atom
  | atom a => [a]
  | group body => body.atoms
  | concat first second | alternate first second => first.atoms ++ second.atoms
  | repeated body _ _ => body.atoms

end Pattern

end Lockstep
