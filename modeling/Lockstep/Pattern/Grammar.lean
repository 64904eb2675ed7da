import Lockstep.Pattern.Spelling

/-!
# The grammar of patterns

Which texts are patterns, and of which trees, said without regard to how they are read. The
characters of a text write a list of symbols, and the grammar derives a tree from it:

    alternation   := concatenation ('|' alternation)?
    concatenation := piece concatenation?
    piece         := operand (('*' | '+' | '?') '?'?)?
    operand       := literal | '^' | '-' | '.' | shorthand | '(' alternation ')'
                   | '[' '^'? members ']'

Among the members of a class every symbol but `]` stands for a character, apart from escapes, which
have to be shorthands. Two rules take away what would be ambiguous: a `-` behind a member that is no
shorthand makes a range unless it is the last member, and a `^` right behind the opening bracket is
never a member.

* `Symbol.Lexes`: the symbols that characters write.
* `ClassItem.Derives`: the members of a class that symbols write.
* `Pattern.Derives`: the tree of a pattern that symbols write.
-/

namespace Lockstep

namespace Symbol

/-- The characters that have a letter behind a backslash. -/
def controls : List (Char × Char) :=
  [('n', '\n'), ('r', '\r'), ('t', '\t'), ('f', '\x0c'), ('v', '\x0b'), ('0', '\x00')]

/-- The symbols that a list of characters writes. -/
inductive Lexes : List Char → List Symbol → Prop
  | nil : Lexes [] []
  /-- An operator. -/
  | operator (op : Operator) {cs symbols} : Lexes cs symbols →
    Lexes (op.char :: cs) (.operator op :: symbols)
  /-- A character that needs no backslash. -/
  | plain {c cs symbols} : needsEscape c = false → Lexes cs symbols →
    Lexes (c :: cs) (.literal c :: symbols)
  /-- A control character. -/
  | control {letter c cs symbols} : (letter, c) ∈ controls → Lexes cs symbols →
    Lexes ('\\' :: letter :: cs) (.literal c :: symbols)
  /-- An operator or a backslash that stands for itself. -/
  | escaped {c cs symbols} : needsEscape c = true → Lexes cs symbols →
    Lexes ('\\' :: c :: cs) (.literal c :: symbols)
  /-- Any other escape. -/
  | escape {c cs symbols} : needsEscape c = false → (∀ d, (c, d) ∉ controls) → Lexes cs symbols →
    Lexes ('\\' :: c :: cs) (.escape c :: symbols)
  /-- A backslash with nothing behind it. -/
  | backslash : Lexes ['\\'] [.literal '\\']

/-- Whether a symbol stands for a character among the members of a class. -/
structure InClass (s : Symbol) : Prop where
  ne_escape : ∀ c, s ≠ .escape c
  ne_closeClass : s ≠ .operator .closeClass

end Symbol

/-- The members of a class that a list of symbols writes. -/
inductive ClassItem.Derives : List Symbol → List ClassItem → Prop
  | nil : Derives [] []
  | shorthand {letter s w items} : Shorthand.ofLetter? letter = some (s, false) →
    Derives w items → Derives (.escape letter :: w) (.shorthand s :: items)
  /-- A `-` behind a character is the last member. -/
  | single {x w items} : Symbol.InClass x → (∀ v, w = .operator .minus :: v → v = []) →
    Derives w items → Derives (x :: w) (.single x.char :: items)
  | range {x y w items} : Symbol.InClass x → Symbol.InClass y → x.char ≤ y.char →
    Derives w items → Derives (x :: .operator .minus :: y :: w) (.range x.char y.char :: items)

namespace Pattern

/-- What the rules of the grammar are about. -/
inductive Part where
  | alternation
  | concatenation
  | piece
  | operand
  deriving DecidableEq, Repr

/-- `Derives depth part w e` says that the symbols `w` write the tree `e` as a `part` of a pattern,
in which at most `depth` groups stand inside each other. -/
inductive Derives : Nat → Part → List Symbol → Pattern → Prop
  | branch {depth w e} : Derives depth .concatenation w e → Derives depth .alternation w e
  | bar {depth w v first rest} : Derives depth .concatenation w first →
    Derives depth .alternation v rest →
    Derives depth .alternation (w ++ .operator .bar :: v) (.alternate first rest)
  | last {depth w e} : Derives depth .piece w e → Derives depth .concatenation w e
  | next {depth w v first rest} : Derives depth .piece w first →
    Derives depth .concatenation v rest →
    Derives depth .concatenation (w ++ v) (.concat first rest)
  | once {depth w e} : Derives depth .operand w e → Derives depth .piece w e
  | greedy {depth w e} (q : Quantifier) : Derives depth .operand w e →
    Derives depth .piece (w ++ [.operator q.operator]) (.repeated e q true)
  | lazy {depth w e} (q : Quantifier) : Derives depth .operand w e →
    Derives depth .piece (w ++ [.operator q.operator, .operator .question]) (.repeated e q false)
  | literal {depth} (c : Char) : Derives depth .operand [.literal c] (.atom (.literal c))
  | caret {depth} : Derives depth .operand [.operator .caret] (.atom (.literal '^'))
  | minus {depth} : Derives depth .operand [.operator .minus] (.atom (.literal '-'))
  | dot {depth} : Derives depth .operand [.operator .dot] (.atom .any)
  | shorthand {depth letter s negated} : Shorthand.ofLetter? letter = some (s, negated) →
    Derives depth .operand [.escape letter] (.atom (.shorthand s negated))
  | group {depth w e} : Derives depth .alternation w e →
    Derives (depth + 1) .operand (.operator .openGroup :: w ++ [.operator .closeGroup]) (.group e)
  | inside {depth w items} : ClassItem.Derives w items → items ≠ [] →
    w.head? ≠ some (.operator .caret) →
    Derives depth .operand (.operator .openClass :: w ++ [.operator .closeClass])
      (.atom (.bracket false items))
  | outside {depth w items} : ClassItem.Derives w items → items ≠ [] →
    Derives depth .operand
      (.operator .openClass :: .operator .caret :: w ++ [.operator .closeClass])
      (.atom (.bracket true items))

end Pattern

end Lockstep
