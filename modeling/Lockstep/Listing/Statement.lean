import Lockstep.Unicode.WhiteSpace

/-!
# Statements of a listing

A listing is a sequence of statements. A label names the instruction after it; an operation is a
word with operands, and makes one instruction. On the page a semicolon hides the rest of its line,
words are separated by blanks, and the words at the start of a line that end in a colon are
labels; the rest of the words, if there are any, is one operation.

* `Listing.Statement`, with `Statement.render`; `Listing.render` writes a list of statements.
* `Listing.words`: the words of a line.
* `Listing.Located`: a statement and the line where it stands, counted from one.
* `Listing.scan`: the statements of a text.
-/

namespace Lockstep.Listing

/-- A statement of a listing. -/
inductive Statement where
  | label (name : String)
  | operation (word : String) (operands : List String)
  deriving DecidableEq, Repr

/-- A statement on a line of its own; operations are indented. -/
def Statement.render : Statement → String
  | label name => name ++ ":\n"
  | operation word operands => "    " ++ " ".intercalate (word :: operands) ++ "\n"

/-- A list of statements as a text. -/
def render (statements : List Statement) : String := String.join (statements.map Statement.render)

/-- The parts of a list between the members that satisfy `p`. The library's `List.splitOnP` gives
the same parts, as `splitAtAll_eq_splitOnP` shows. It is not used here because `Listing.Events` says
by it what the lines and words of a text are, which is not to rest on the function that reads
them. -/
def splitAtAll {α : Type} (p : α → Bool) : List α → List (List α)
  | [] => [[]]
  | x :: xs =>
    if p x then [] :: splitAtAll p xs
    else
      match splitAtAll p xs with
      | [] => [[x]]
      | part :: parts => (x :: part) :: parts

/-- The words of a line, up to the first semicolon. -/
def words (line : List Char) : List String :=
  ((splitAtAll Unicode.isWhiteSpace (line.takeWhile (· != ';'))).filter (!·.isEmpty)).map
    String.ofList

/-- The label that a word defines: what stands before the colon at its end. -/
def labelName? (word : String) : Option String :=
  match word.toList.reverse with
  | ':' :: c :: rest => some (String.ofList (c :: rest).reverse)
  | _ => none

/-- A statement and the line where it stands. -/
structure Located where
  line : Nat
  statement : Statement
  deriving DecidableEq, Repr

/-- The statements that the words of a line write. -/
def ofWords (line : Nat) : List String → List Located
  | [] => []
  | word :: rest =>
    match labelName? word with
    | some name => ⟨line, .label name⟩ :: ofWords line rest
    | none => [⟨line, .operation word rest⟩]

/-- The statements of a text. -/
def scan (text : String) : List Located :=
  let lines := splitAtAll (· == '\n') text.toList
  lines.zipIdx.flatMap fun (line, ix) => ofWords (ix + 1) (words line)

end Lockstep.Listing
