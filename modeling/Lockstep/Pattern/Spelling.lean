import Lockstep.Pattern.Basic
import Lockstep.Pattern.Token

/-!
# Spelling patterns

Every pattern can be written down. Operators and backslashes that stand for themselves are escaped;
every other character is written as it is. A `-` that makes a range is the only operator written in
a class, apart from a `^` at its beginning.

* `Symbol.spell`: how a symbol is written.
* `Pattern.symbols`: the symbols that write a pattern; `Pattern.spelling`: its text.
-/

namespace Lockstep

/-- Whether a character needs a backslash to stand for itself. -/
def needsEscape (c : Char) : Bool := c == '\\' || (Operator.ofChar? c).isSome

/-- How a symbol is written. -/
def Symbol.spell : Symbol → List Char
  | literal c => if needsEscape c then ['\\', c] else [c]
  | escape c => ['\\', c]
  | operator op => [op.char]

/-- The symbols of a member of a class. -/
def ClassItem.symbols : ClassItem → List Symbol
  | single c => [.literal c]
  | range lo hi => [.literal lo, .operator .minus, .literal hi]
  | shorthand s => [.escape s.letter]

/-- The symbols of an atom. -/
def Atom.symbols : Atom → List Symbol
  | literal c => [.literal c]
  | any => [.operator .dot]
  | shorthand s false => [.escape s.letter]
  | shorthand s true => [.escape s.negatedLetter]
  | bracket false items =>
    .operator .openClass :: items.flatMap ClassItem.symbols ++ [.operator .closeClass]
  | bracket true items =>
    .operator .openClass :: .operator .caret :: items.flatMap ClassItem.symbols ++
      [.operator .closeClass]

/-- The operator of a quantifier. -/
def Quantifier.operator : Quantifier → Operator
  | star => .star
  | plus => .plus
  | optional => .question

namespace Pattern

/-- The symbols that write a pattern. -/
def symbols : Pattern → List Symbol
  | atom a => a.symbols
  | group body => .operator .openGroup :: body.symbols ++ [.operator .closeGroup]
  | concat first second => first.symbols ++ second.symbols
  | alternate first second => first.symbols ++ .operator .bar :: second.symbols
  | repeated body quantifier true => body.symbols ++ [.operator quantifier.operator]
  | repeated body quantifier false =>
    body.symbols ++ [.operator quantifier.operator, .operator .question]

/-- A pattern as a text. -/
def spelling (e : Pattern) : String := String.ofList (e.symbols.flatMap Symbol.spell)

end Pattern

end Lockstep
