import Lockstep.Unicode.DefaultIgnorable
import Lockstep.Unicode.ExtendingMark
import Lockstep.Unicode.Unprintable

/-!
# Quoted characters

A character is shown to a reader between single quotes. The six characters with a short escape use
it; a character that has no visible form, or that would attach to the quote before it, is written by
its code; every other character stands for itself.

* `Quoted.escape`: what stands between the quotes.
* `Quoted.quote`: the quoted form.
-/

namespace Lockstep.Quoted

/-- The digits of a number in base sixteen, lower case, without leading zeros. -/
def hexDigits (n : Nat) : String := String.ofList (Nat.toDigits 16 n)

/-- A character by its code. -/
def byCode (c : Char) : String := "\\u\x7b" ++ hexDigits c.toNat ++ "\x7d"

/-- Whether a character would not show between quotes as a character of its own, and so is written
by its code. -/
def needsCode (c : Char) : Bool :=
  Unicode.isExtendingMark c || Unicode.isDefaultIgnorable c || Unicode.isUnprintable c

/-- What stands between the quotes for a character. -/
def escape (c : Char) : String :=
  match c with
  | '\x00' => "\\0"
  | '\t' => "\\t"
  | '\r' => "\\r"
  | '\n' => "\\n"
  | '\'' => "\\'"
  | '\\' => "\\\\"
  | c => if needsCode c then byCode c else c.toString

/-- A character in single quotes. -/
def quote (c : Char) : String := "'" ++ escape c ++ "'"

end Lockstep.Quoted
