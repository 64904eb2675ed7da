import Lockstep.Pattern.Token
import Lockstep.Text.Quoted

/-!
# Errors in patterns

* `Pattern.Expectation`: what could have stood at a place.
* `Pattern.Fault`: what is wrong with a pattern; `Pattern.Fault.message` words it.
* `Pattern.Error`: a fault and the offset where it was found.
-/

namespace Lockstep.Pattern

/-- What the grammar would have accepted at a place. -/
inductive Expectation where
  | operand
  | endOfPattern
  | closeGroup
  | classMember
  | rangeEnd
  | closeClass
  deriving DecidableEq, Repr

/-- How an expectation is called in messages. -/
def Expectation.name : Expectation → String
  | operand => "a character, group or class"
  | endOfPattern => "end of pattern"
  | closeGroup => "`)`"
  | classMember => "a class character"
  | rangeEnd => "a range end character"
  | closeClass => "`]`"

/-- How what was found is called in messages; `none` is the end of the pattern. -/
def foundName : Option Symbol → String
  | none => "end of pattern"
  | some (.literal _) => "character"
  | some (.escape _) => "escape"
  | some (.operator op) => "`" ++ op.char.toString ++ "`"

/-- What is wrong with a pattern. -/
inductive Fault where
  /-- The grammar has no place for a symbol, or for the end of the pattern. -/
  | unexpected (expected : Expectation) (found : Option Symbol)
  /-- An escape is neither a literal nor a shorthand. -/
  | invalidEscape (letter : Char)
  /-- A complement cannot be a member of a class. -/
  | negatedClassInBrackets (letter : Char)
  /-- The ends of a range are in the wrong order. -/
  | invalidClassRange (lo hi : Char)
  /-- There are more groups inside each other than the limit. -/
  | nestingTooDeep (limit : Nat)
  deriving DecidableEq, Repr

/-- The wording of a fault. -/
def Fault.message : Fault → String
  | unexpected expected found => "expected " ++ expected.name ++ ", found " ++ foundName found
  | invalidEscape letter => "invalid escape: \\" ++ letter.toString
  | negatedClassInBrackets letter =>
    "negated class \\" ++ letter.toString ++ " is not allowed inside brackets"
  | invalidClassRange lo hi =>
    "invalid class range " ++ Quoted.quote lo ++ "-" ++ Quoted.quote hi
  | nestingTooDeep limit => "groups nested deeper than " ++ toString limit ++ " levels"

/-- A fault and the offset where it was found. -/
structure Error where
  pos : Nat
  fault : Fault
  deriving DecidableEq, Repr

/-- The wording of an error in a pattern. -/
def Error.message (e : Error) : String :=
  "Parsing error at position " ++ toString e.pos ++ ": " ++ e.fault.message

end Lockstep.Pattern
