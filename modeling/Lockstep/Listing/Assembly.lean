import Lockstep.Listing.Reader
import Mathlib.Data.List.Forall2

/-!
# What a listing means

The program that a listing writes, or the error in it, said without regard to how it is read. The
lines of a listing write a sequence of events, which are labels and operations with the lines where
they stand, and these events decide on the result:

1. a label whose name has been defined before is an error;
2. failing that, a label with no operation behind it is one;
3. failing that, so is the first operation that makes no instruction, be it because of its name, of
   the number of its operands, or of the first operand that is not of the right kind;
4. otherwise each operation makes one instruction of the program.

* `Listing.Events`: the events of a text.
* `Listing.Rearranges`: lines that are laid out in another way.
* `Listing.WritesChar`, `Listing.WritesNumber`: the words that write a character or a number, which
  are those that `readChar?` and `readNumber?` read.
* `Listing.Names`: the position that a target names.
* `Listing.Operation.Makes`, `Listing.Operation.Fails`: what an operation makes.
* `Listing.Assembles`: the program of some events, or the error in them.
-/

namespace Lockstep.Listing

/-! ### Events -/

/-- The statements that the words of a line write. -/
inductive Writes : List String → List Statement → Prop
  | nil : Writes [] []
  | label {name words statements} : name ≠ "" → Writes words statements →
    Writes ((name ++ ":") :: words) (.label name :: statements)
  /-- A word that is no label begins an operation, which takes the rest of the line. -/
  | operation {word operands} : (∀ name, word = name ++ ":" → name = "") →
    Writes (word :: operands) [.operation word operands]

/-- The words of a line, which stand between blanks in front of the first semicolon. -/
def wordsOf (line : List Char) : List String :=
  (((line.takeWhile (· != ';')).splitOnP Unicode.isWhiteSpace).filter (!·.isEmpty)).map
    String.ofList

/-- The events of lines, of which the first has the number `line`. -/
inductive LinesWrite : Nat → List (List Char) → List Located → Prop
  | nil {line} : LinesWrite line [] []
  | cons {line chars rest statements events} : Writes (wordsOf chars) statements →
    LinesWrite (line + 1) rest events →
    LinesWrite line (chars :: rest) (statements.map (Located.mk line) ++ events)

/-- The lines of a text. -/
def linesOf (text : String) : List (List Char) := text.toList.splitOn '\n'

/-- The events of a text, whose lines are counted from one. -/
def Events (text : String) (events : List Located) : Prop := LinesWrite 1 (linesOf text) events

/-- Lists of lines that differ only in how the same labels and operations are laid out. -/
inductive Rearranges : List (List Char) → List (List Char) → Prop
  | nil : Rearranges [] []
  /-- A blank line is left out. -/
  | blank {line rest} : (∀ c ∈ line, Unicode.isWhiteSpace c = true) → Rearranges (line :: rest) rest
  /-- A comment is left out. -/
  | comment {code comment rest} : Rearranges ((code ++ ';' :: comment) :: rest) (code :: rest)
  /-- The words of a line are written with other blanks. -/
  | line {line line' rest rest'} : wordsOf line = wordsOf line' → Rearranges rest rest' →
    Rearranges (line :: rest) (line' :: rest')
  /-- A label gets a line of its own, in front of what stood behind it. -/
  | label {line first second name rest} : name ≠ "" →
    wordsOf line = (name ++ ":") :: wordsOf second → wordsOf first = [name ++ ":"] →
    Rearranges (line :: rest) (first :: second :: rest)
  | symm {lines lines'} : Rearranges lines lines' → Rearranges lines' lines
  | trans {lines lines' lines''} : Rearranges lines lines' → Rearranges lines' lines'' →
    Rearranges lines lines''

/-! ### Characters and numbers -/

/-- A digit of a base and its value. Digits from ten on are letters, in either case. -/
def WritesDigit (base : Nat) (c : Char) (value : Nat) : Prop :=
  value < base ∧ (c = value.digitChar ∨ c = value.digitChar.toUpper)

/-- The number that digits write in a base. -/
inductive Numeral (base : Nat) : List Char → Nat → Prop
  | nil : Numeral base [] 0
  | place {digits n c value} : Numeral base digits n → WritesDigit base c value →
    Numeral base (digits ++ [c]) (base * n + value)

/-- The letters that stand for other characters behind a backslash. -/
def escapes : List (Char × Char) :=
  [('n', '\n'), ('r', '\r'), ('t', '\t'), ('v', '\x0b'), ('f', '\x0c'), ('\\', '\\')]

/-- The character that a word writes. -/
inductive WritesChar : List Char → Char → Prop
  /-- A character on its own stands for itself, also a backslash. -/
  | raw {c} : WritesChar [c] c
  | escape {letter c} : (letter, c) ∈ escapes → WritesChar ['\\', letter] c
  /-- Two digits after `x` write the code of a character. -/
  | byte {digits c} : digits.length = 2 → Numeral 16 digits c.toNat →
    WritesChar ('\\' :: 'x' :: digits) c
  /-- Four digits after `u` write the code of a character. -/
  | code {digits c} : digits.length = 4 → Numeral 16 digits c.toNat →
    WritesChar ('\\' :: 'u' :: digits) c

/-- The number that a word writes in decimal. A plus sign may stand in front of the digits. -/
inductive WritesNumber : List Char → Nat → Prop
  | plain {digits n} : digits ≠ [] → Numeral 10 digits n → WritesNumber digits n
  | plus {digits n} : digits ≠ [] → Numeral 10 digits n → WritesNumber ('+' :: digits) n

/-! ### Operands -/

/-- The label that a statement is. -/
def Statement.name? : Statement → Option String
  | label name => some name
  | operation _ _ => none

/-- The names of the labels among some events. -/
def labelNames (events : List Located) : List String :=
  events.filterMap fun event => event.statement.name?

/-- `Names events word n` says that a target names position `n`: a label, wherever it stands, names
the position of the operation behind it, and a word that is no label writes the position itself. -/
inductive Names (events : List Located) : String → Nat → Prop
  | label {before line name after} : events = before ++ ⟨line, .label name⟩ :: after →
    Names events name (operations before).length
  | number {word n} : word ∉ labelNames events → readNumber? maxWord word = some n →
    Names events word n

/-- What an operand stands for. -/
inductive OperandKind where
  | char
  | target
  | slot
  deriving DecidableEq, Repr

/-- What the operands of an operation stand for, if it takes any. -/
def Opcode.operandKind? : Opcode → Option OperandKind
  | char | range | nrange => some .char
  | jump | split => some .target
  | save => some .slot
  | any | accept => none

namespace OperandKind

/-- Whether a word is an operand of a kind. -/
def Admits (events : List Located) : OperandKind → String → Prop
  | char, word => ∃ c, readChar? word = some c
  | target, word => ∃ n, Names events word n
  | slot, word => ∃ n, readNumber? maxSlot word = some n

/-- What is wrong with a word that is no operand of a kind. -/
def fault : OperandKind → String → Fault
  | char => .invalidChar
  | target => .unknownLabel
  | slot => .invalidNumber

/-- What is wrong with the first of some words that is no operand of a kind. -/
inductive Rejects (events : List Located) (kind : OperandKind) : List String → Fault → Prop
  | here {word rest} : ¬ kind.Admits events word →
    Rejects events kind (word :: rest) (kind.fault word)
  | there {word rest fault} : kind.Admits events word → Rejects events kind rest fault →
    Rejects events kind (word :: rest) fault

end OperandKind

/-! ### Operations -/

/-- The characters of ranges, in the order in which they are written. -/
def charsOf (ranges : List CharRange) : List (Option Char) :=
  ranges.flatMap fun range => [some range.lo, some range.hi]

/-- The instruction that operands write. -/
inductive Translates (events : List Located) : Opcode → List String → Instruction → Prop
  | char {word c} : readChar? word = some c → Translates events .char [word] (.char c)
  | any : Translates events .any [] .any
  | range {words ranges} : words.map readChar? = charsOf ranges →
    Translates events .range words (.inside ranges)
  | nrange {words ranges} : words.map readChar? = charsOf ranges →
    Translates events .nrange words (.outside ranges)
  | accept : Translates events .accept [] .accept
  | jump {word target} : Names events word target → Translates events .jump [word] (.jump target)
  | split {word word' first second} : Names events word first → Names events word' second →
    Translates events .split [word, word'] (.split first second)
  | save {word slot} : readNumber? maxSlot word = some slot →
    Translates events .save [word] (.save slot)

/-- The instruction that an operation makes. -/
def Operation.Makes (events : List Located) (o : Operation) (i : Instruction) : Prop :=
  ∃ op : Opcode, op.name = o.word ∧ Translates events op o.operands i

/-- Why an operation makes no instruction. -/
inductive Operation.Fails (events : List Located) (o : Operation) : Fault → Prop
  | opcode : (∀ op : Opcode, op.name ≠ o.word) → Fails events o (.unknownOpcode o.word)
  | count {op : Opcode} : op.name = o.word → op.arity.admits o.operands.length = false →
    Fails events o (.operandCount op o.operands.length)
  | operand {op : Opcode} {kind : OperandKind} {fault} : op.name = o.word →
    op.arity.admits o.operands.length = true → op.operandKind? = some kind →
    kind.Rejects events o.operands fault → Fails events o fault

/-! ### Programs -/

/-- Whether no label stands behind the last operation. -/
def Closed (events : List Located) : Prop :=
  ∀ line name, events.getLast? ≠ some ⟨line, .label name⟩

/-- The program of some events, or the error in them. -/
inductive Assembles (events : List Located) : Except Error Program → Prop
  /-- The first label whose name has been defined before. -/
  | duplicate {before line name after} : events = before ++ ⟨line, .label name⟩ :: after →
    (labelNames before).Nodup → name ∈ labelNames before →
    Assembles events (.error ⟨line, .duplicateLabel name⟩)
  /-- The first of the labels behind the last operation. -/
  | dangling {before line name after} : (labelNames events).Nodup →
    events = before ++ ⟨line, .label name⟩ :: after → Closed before → operations after = [] →
    Assembles events (.error ⟨line, .danglingLabel name⟩)
  /-- The first operation that makes no instruction. -/
  | failure {before o after body fault} : (labelNames events).Nodup → Closed events →
    operations events = before ++ o :: after → List.Forall₂ (Operation.Makes events) before body →
    o.Fails events fault → Assembles events (.error ⟨o.line, fault⟩)
  | program {body} : (labelNames events).Nodup → Closed events →
    List.Forall₂ (Operation.Makes events) (operations events) body →
    Assembles events (.ok (.ofBody body.toArray))

end Lockstep.Listing
