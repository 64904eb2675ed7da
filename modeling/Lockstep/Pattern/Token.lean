import Lockstep.Text.Basic

/-!
# Tokens of a pattern

A pattern is read as a sequence of tokens. A token is an operator, a literal character, or an
escape whose meaning the tokens leave open. A backslash takes the next character with it: some
letters name a control character, an operator or a backslash then stands for itself, and every
other character makes an escape. A backslash at the very end of a pattern stands for itself.

* `Operator`, with `Operator.char` and `Operator.ofChar?`: the eleven operators.
* `Symbol`: what a token is; `Token`: a symbol and the offset where it starts.
* `Token.tokenize`: the tokens of a list of cells; `Token.ofText`: the tokens of a text.
-/

namespace Lockstep

/-- A character with a meaning of its own in patterns. -/
inductive Operator where
  | openGroup
  | closeGroup
  | openClass
  | closeClass
  | plus
  | minus
  | star
  | question
  | caret
  | bar
  | dot
  deriving DecidableEq, Repr

namespace Operator

/-- How an operator is written. -/
def char : Operator → Char
  | openGroup => '('
  | closeGroup => ')'
  | openClass => '['
  | closeClass => ']'
  | plus => '+'
  | minus => '-'
  | star => '*'
  | question => '?'
  | caret => '^'
  | bar => '|'
  | dot => '.'

/-- The operator that a character writes, if it writes one. -/
def ofChar? : Char → Option Operator
  | '(' => some openGroup
  | ')' => some closeGroup
  | '[' => some openClass
  | ']' => some closeClass
  | '+' => some plus
  | '-' => some minus
  | '*' => some star
  | '?' => some question
  | '^' => some caret
  | '|' => some bar
  | '.' => some dot
  | _ => none

@[simp] theorem ofChar?_char (op : Operator) : ofChar? op.char = some op := by
  cases op <;> rfl

/-- An operator is written in one way only. -/
theorem ofChar?_eq_some_iff {c : Char} {op : Operator} : ofChar? c = some op ↔ c = op.char := by
  constructor
  · intro h
    unfold ofChar? at h
    split at h <;> cases h <;> rfl
  · rintro rfl
    exact ofChar?_char op

end Operator

/-- What a token of a pattern is. -/
inductive Symbol where
  /-- A character that stands for itself. -/
  | literal (c : Char)
  /-- A backslash and a character that gives it no meaning here. -/
  | escape (c : Char)
  /-- An unescaped operator. -/
  | operator (op : Operator)
  deriving DecidableEq, Repr

namespace Symbol

/-- The character behind a symbol, which is what the symbol stands for among the members of a
class. -/
def char : Symbol → Char
  | literal c => c
  | escape c => c
  | operator op => op.char

/-- The symbol of an unescaped character. -/
def ofChar (c : Char) : Symbol :=
  match Operator.ofChar? c with
  | some op => operator op
  | none => literal c

/-- The symbol of a character after a backslash. -/
def ofEscaped (c : Char) : Symbol :=
  match c with
  | 'n' => literal '\n'
  | 'r' => literal '\r'
  | 't' => literal '\t'
  | 'f' => literal '\x0c'
  | 'v' => literal '\x0b'
  | '0' => literal '\x00'
  | c => if c = '\\' ∨ (Operator.ofChar? c).isSome then literal c else escape c

end Symbol

/-- A symbol of a pattern and the offset where it starts. -/
structure Token where
  pos : Nat
  symbol : Symbol
  deriving DecidableEq, Repr

namespace Token

/-- The tokens of the cells that start at offset `pos`. -/
def tokenize (pos : Nat) : List Cell → List Token
  | [] => []
  | [cell] => [⟨pos, Symbol.ofChar cell.char⟩]
  | cell :: next :: rest =>
    if cell.char = '\\' then
      ⟨pos, Symbol.ofEscaped next.char⟩ :: tokenize (pos + cell.width + next.width) rest
    else
      ⟨pos, Symbol.ofChar cell.char⟩ :: tokenize (pos + cell.width) (next :: rest)

/-- The tokens of a text. -/
def ofText (t : Text) : List Token := tokenize 0 t.cells

end Token

end Lockstep
