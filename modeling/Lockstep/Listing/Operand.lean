import Lockstep.Unicode.WhiteSpace

/-!
# Operands in listings

A listing separates words by blanks and ends a line's code at a semicolon, so a character operand
that is blank, a control character, a semicolon or a backslash is escaped: by a letter of its own,
or by the digits of its code in base sixteen, two after `x` or four after `u`. Numbers are written
in decimal.

* `Listing.writeChar`, `Listing.readChar?`: character operands.
* `Listing.readNumber?`: numbers up to a bound; a plus sign may stand in front.
-/

namespace Lockstep.Listing

/-- The last `width` digits of a number in base sixteen. -/
def hexDigits : Nat → Nat → List Char
  | 0, _ => []
  | width + 1, n => hexDigits width (n / 16) ++ [Nat.digitChar (n % 16)]

@[simp] theorem length_hexDigits (width n : Nat) : (hexDigits width n).length = width := by
  induction width generalizing n with
  | zero => rfl
  | succ width ih => simp [hexDigits, ih]

/-- The value of a digit in base sixteen, in either case. -/
def hexDigit? (c : Char) : Option Nat :=
  if '0' ≤ c ∧ c ≤ '9' then some (c.toNat - '0'.toNat)
  else if 'a' ≤ c ∧ c ≤ 'f' then some (c.toNat - 'a'.toNat + 10)
  else if 'A' ≤ c ∧ c ≤ 'F' then some (c.toNat - 'A'.toNat + 10)
  else none

/-- The number that digits in base sixteen write. -/
def hexValue? (digits : List Char) : Option Nat :=
  digits.foldlM (fun value c => (hexDigit? c).map (16 * value + ·)) 0

/-- The character whose code is written by exactly `width` digits. -/
def charOfHex? (width : Nat) (digits : List Char) : Option Char := do
  guard (digits.length = width)
  let code ← hexValue? digits
  if h : code.isValidChar then some (Char.ofNatAux code h) else none

/-- Whether a character cannot stand for itself in an operand. -/
def needsCode (c : Char) : Bool := c == ';' || Unicode.isWhiteSpace c || Unicode.isControl c

/-- How a character is written as an operand. -/
def writeChar (c : Char) : String :=
  match c with
  | '\n' => "\\n"
  | '\r' => "\\r"
  | '\t' => "\\t"
  | '\x0b' => "\\v"
  | '\x0c' => "\\f"
  | '\\' => "\\\\"
  | c =>
    if needsCode c then
      if c.toNat < 0x100 then "\\x" ++ String.ofList (hexDigits 2 c.toNat)
      else "\\u" ++ String.ofList (hexDigits 4 c.toNat)
    else c.toString

/-- The character that is written behind a backslash. -/
def readEscape? : List Char → Option Char
  | ['n'] => some '\n'
  | ['r'] => some '\r'
  | ['t'] => some '\t'
  | ['v'] => some '\x0b'
  | ['f'] => some '\x0c'
  | ['\\'] => some '\\'
  | 'x' :: digits => charOfHex? 2 digits
  | 'u' :: digits => charOfHex? 4 digits
  | _ => none

/-- The character that a word writes. A backslash on its own stands for itself. -/
def readChar? (word : String) : Option Char :=
  match word.toList with
  | [c] => some c
  | '\\' :: escape => readEscape? escape
  | _ => none

/-- The number that decimal digits write, if there are any digits and it is at most `bound`. -/
def readDigits? (bound : Nat) (digits : List Char) : Option Nat := do
  guard (!digits.isEmpty && digits.all Char.isDigit)
  let n := Nat.ofDigitChars 10 digits 0
  guard (n ≤ bound)
  return n

/-- The number that a word writes, if it is at most `bound`. -/
def readNumber? (bound : Nat) (word : String) : Option Nat :=
  match word.toList with
  | '+' :: digits => readDigits? bound digits
  | digits => readDigits? bound digits

end Lockstep.Listing
