import Lockstep.CharRange

/-!
# Patterns

The tree of a pattern. Its leaves are atoms, which consume one character; groups, concatenation,
alternation and repetition build larger patterns from smaller ones.

* `Shorthand`: the named classes of blanks, word characters and digits, as ranges.
* `ClassItem`: a member of a bracketed class; `ClassItem.ranges` lists what it stands for.
* `Atom`: a leaf; `Atom.accepts` says which characters it consumes.
* `Quantifier`: how often a repeated pattern may occur.
* `Pattern`: the tree; `Pattern.concatAll` and `Pattern.alternateAll` build it from lists, nested to
  the right.
* `Pattern.groupCount`: the number of groups, which is the number of opening parentheses.
-/

namespace Lockstep

/-- The classes of characters with a letter of their own. -/
inductive Shorthand where
  | space
  | word
  | digit
  deriving DecidableEq, Repr

namespace Shorthand

/-- The characters of a shorthand, as ranges. -/
def ranges : Shorthand → List CharRange
  | space => [⟨'\t', '\r'⟩, ⟨' ', ' '⟩]
  | word => [⟨'a', 'z'⟩, ⟨'A', 'Z'⟩, ⟨'0', '9'⟩, ⟨'_', '_'⟩]
  | digit => [⟨'0', '9'⟩]

/-- The letter that names a shorthand after a backslash. -/
def letter : Shorthand → Char
  | space => 's'
  | word => 'w'
  | digit => 'd'

/-- The letter that names all characters but those of a shorthand. -/
def negatedLetter : Shorthand → Char
  | space => 'S'
  | word => 'W'
  | digit => 'D'

/-- The shorthand that a letter names, and whether the letter names its complement. -/
def ofLetter? : Char → Option (Shorthand × Bool)
  | 's' => some (space, false)
  | 'S' => some (space, true)
  | 'w' => some (word, false)
  | 'W' => some (word, true)
  | 'd' => some (digit, false)
  | 'D' => some (digit, true)
  | _ => none

@[simp] theorem ofLetter?_letter (s : Shorthand) : ofLetter? s.letter = some (s, false) := by
  cases s <;> rfl

@[simp] theorem ofLetter?_negatedLetter (s : Shorthand) :
    ofLetter? s.negatedLetter = some (s, true) := by
  cases s <;> rfl

end Shorthand

/-- A member of a bracketed class. -/
inductive ClassItem where
  | single (c : Char)
  | range (lo hi : Char)
  | shorthand (s : Shorthand)
  deriving DecidableEq, Repr

/-- The ranges that a member of a class contributes. -/
def ClassItem.ranges : ClassItem → List CharRange
  | single c => [CharRange.single c]
  | range lo hi => [⟨lo, hi⟩]
  | shorthand s => s.ranges

/-- A leaf of a pattern, which consumes one character. -/
inductive Atom where
  /-- The character itself. -/
  | literal (c : Char)
  /-- Any character. -/
  | any
  /-- A character of a shorthand, or of its complement. -/
  | shorthand (s : Shorthand) (negated : Bool)
  /-- A character of a bracketed class, or of its complement. -/
  | bracket (negated : Bool) (items : List ClassItem)
  deriving DecidableEq, Repr

/-- Whether an atom consumes a character. -/
def Atom.accepts (c : Char) : Atom → Bool
  | literal d => c == d
  | any => true
  | shorthand s negated => CharRange.anyContains s.ranges c != negated
  | bracket negated items => items.any (CharRange.anyContains ·.ranges c) != negated

/-- How often a repeated pattern may occur. -/
inductive Quantifier where
  /-- Any number of times. -/
  | star
  /-- At least once. -/
  | plus
  /-- At most once. -/
  | optional
  deriving DecidableEq, Repr

/-- The tree of a pattern. -/
inductive Pattern where
  | atom (a : Atom)
  /-- A parenthesised pattern, whose extent is recorded. -/
  | group (body : Pattern)
  | concat (first second : Pattern)
  /-- Either of two patterns; the first is tried first. -/
  | alternate (first second : Pattern)
  /-- A repeated pattern; a greedy one tries a further occurrence first, a lazy one goes on first.
  -/
  | repeated (body : Pattern) (quantifier : Quantifier) (greedy : Bool)
  deriving DecidableEq, Repr

namespace Pattern

/-- One pattern after the other; the last is given first, the others from last to first. -/
def concatAll (last : Pattern) (earlier : List Pattern) : Pattern :=
  earlier.foldl (fun rest e => concat e rest) last

/-- Any of several patterns; the last is given first, the others from last to first. -/
def alternateAll (last : Pattern) (earlier : List Pattern) : Pattern :=
  earlier.foldl (fun rest e => alternate e rest) last

@[simp] theorem concatAll_nil (last : Pattern) : concatAll last [] = last := rfl

@[simp] theorem concatAll_cons (last e : Pattern) (earlier : List Pattern) :
    concatAll last (e :: earlier) = concatAll (concat e last) earlier := rfl

@[simp] theorem alternateAll_nil (last : Pattern) : alternateAll last [] = last := rfl

@[simp] theorem alternateAll_cons (last e : Pattern) (earlier : List Pattern) :
    alternateAll last (e :: earlier) = alternateAll (alternate e last) earlier := rfl

/-- The number of groups in a pattern. -/
def groupCount : Pattern → Nat
  | atom _ => 0
  | group body => body.groupCount + 1
  | concat first second => first.groupCount + second.groupCount
  | alternate first second => first.groupCount + second.groupCount
  | repeated body _ _ => body.groupCount

end Pattern

end Lockstep
