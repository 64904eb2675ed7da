import Lockstep.Pattern.Basic
import Lockstep.Pattern.Error

/-!
# Reading patterns

A pattern is read from left to right, one token at a time, without looking ahead. The grammar is

    alternation   := concatenation ('|' alternation)?
    concatenation := piece concatenation?
    piece         := operand (('*' | '+' | '?') '?'?)?
    operand       := literal | '^' | '-' | '.' | shorthand | '(' alternation ')'
                   | '[' '^'? members ']'

and what has been read so far is kept in a `Reader`: the groups that are still open, and the phase
of the innermost piece. Inside brackets the operators are plain characters, except that a `^`
right after the opening bracket takes the complement, a `-` between two characters makes a range,
and `]` ends the class; a `-` right before that `]` is a plain character.

* `Level`: the finished parts of one open group, or of the whole pattern.
* `ClassTail`: how the latest member of a class can go on.
* `Phase`: what the reader is in the middle of.
* `Reader.step`: reading one token; `Reader.finish`: reading the end of the pattern.
* `Pattern.ofTokens`, `Pattern.ofText`: reading a whole pattern.

Since a token is either taken or refused for good, an error is found at the first token that
cannot be continued, whatever follows it.
-/

namespace Lockstep.Pattern

/-- The number of groups that may be open at once. -/
def nestLimit : Nat := 250

/-- The finished parts of one open group, or of the whole pattern. -/
structure Level where
  /-- The finished alternatives, latest first. -/
  branches : List Pattern
  /-- The finished pieces of the current alternative, latest first. -/
  pieces : List Pattern
  deriving DecidableEq, Repr

namespace Level

/-- A level of which nothing has been read. -/
def empty : Level := ⟨[], []⟩

/-- A level after one more piece. -/
def addPiece (level : Level) (piece : Pattern) : Level :=
  { level with pieces := piece :: level.pieces }

/-- A level after a last piece of the current alternative. -/
def endBranch (level : Level) (piece : Pattern) : Level :=
  ⟨concatAll piece level.pieces :: level.branches, []⟩

/-- The tree of a level that ends with `piece`. -/
def close (level : Level) (piece : Pattern) : Pattern :=
  alternateAll (concatAll piece level.pieces) level.branches

end Level

/-- How the latest member of a class can go on. -/
inductive ClassTail where
  /-- There is no member yet. -/
  | empty
  /-- The latest member is complete. -/
  | complete
  /-- A character at offset `pos` that may turn out to begin a range. -/
  | single (pos : Nat) (c : Char)
  /-- Such a character with a `-` after it. -/
  | dash (pos : Nat) (c : Char)
  deriving DecidableEq, Repr

/-- What a reader is in the middle of. -/
inductive Phase where
  /-- An operand has to follow. -/
  | start
  /-- An operand has been read, and a quantifier may follow. -/
  | operand (body : Pattern)
  /-- A quantifier has been read, and a `?` would make it lazy. -/
  | quantified (body : Pattern) (quantifier : Quantifier)
  /-- A piece is complete. -/
  | piece (body : Pattern)
  /-- A bracket has just been opened. -/
  | openClass
  /-- Inside brackets; `items` are the complete members, latest first. -/
  | inClass (negated : Bool) (items : List ClassItem) (tail : ClassTail)
  deriving DecidableEq, Repr

/-- What has been read of a pattern. -/
structure Reader where
  /-- The innermost open group, or the whole pattern. -/
  level : Level
  /-- The levels around it, innermost first. -/
  outer : List Level
  phase : Phase
  deriving DecidableEq, Repr

/-- The quantifier that a symbol writes, if it writes one. -/
def quantifier? : Symbol → Option Quantifier
  | .operator .star => some .star
  | .operator .plus => some .plus
  | .operator .question => some .optional
  | _ => none

/-- The refusal of a token. -/
def refuse (token : Token) (expected : Expectation) : Except Error Reader :=
  .error ⟨token.pos, .unexpected expected (some token.symbol)⟩

namespace Reader

/-- Nothing has been read. -/
def initial : Reader := ⟨.empty, [], .start⟩

/-- What has to follow a complete piece if the pattern does not go on. -/
def closing (r : Reader) : Expectation :=
  if r.outer.isEmpty then .endOfPattern else .closeGroup

/-- Reads the first token of an operand. -/
def beginOperand (r : Reader) (token : Token) : Except Error Reader :=
  match token.symbol with
  | .literal c => .ok { r with phase := .operand (.atom (.literal c)) }
  | .operator .caret => .ok { r with phase := .operand (.atom (.literal '^')) }
  | .operator .minus => .ok { r with phase := .operand (.atom (.literal '-')) }
  | .operator .dot => .ok { r with phase := .operand (.atom .any) }
  | .escape letter =>
    match Shorthand.ofLetter? letter with
    | some (s, negated) => .ok { r with phase := .operand (.atom (.shorthand s negated)) }
    | none => .error ⟨token.pos, .invalidEscape letter⟩
  | .operator .openGroup =>
    if r.outer.length = nestLimit then .error ⟨token.pos, .nestingTooDeep nestLimit⟩
    else .ok ⟨.empty, r.level :: r.outer, .start⟩
  | .operator .openClass => .ok { r with phase := .openClass }
  | _ => refuse token .operand

/-- Reads the token after a complete piece. -/
def afterPiece (r : Reader) (piece : Pattern) (token : Token) : Except Error Reader :=
  match token.symbol with
  | .operator .bar => .ok { r with level := r.level.endBranch piece, phase := .start }
  | .operator .closeGroup =>
    match r.outer with
    | [] => refuse token r.closing
    | level :: outer => .ok ⟨level, outer, .operand (.group (r.level.close piece))⟩
  | .operator .closeClass | .operator .star | .operator .plus | .operator .question =>
    refuse token r.closing
  | _ => beginOperand { r with level := r.level.addPiece piece, phase := .start } token

/-- Ends a class; `items` are its members, latest first. -/
def endClass (r : Reader) (negated : Bool) (items : List ClassItem) : Reader :=
  { r with phase := .operand (.atom (.bracket negated items.reverse)) }

/-- Reads the first token of a member of a class; `items` are the members before it. -/
def beginMember (r : Reader) (negated : Bool) (items : List ClassItem) (token : Token) :
    Except Error Reader :=
  match token.symbol with
  | .operator .closeClass => refuse token .classMember
  | .escape letter =>
    match Shorthand.ofLetter? letter with
    | some (s, false) => .ok { r with phase := .inClass negated (.shorthand s :: items) .complete }
    | some (_, true) => .error ⟨token.pos, .negatedClassInBrackets letter⟩
    | none => .error ⟨token.pos, .invalidEscape letter⟩
  | symbol => .ok { r with phase := .inClass negated items (.single token.pos symbol.char) }

/-- Reads a token inside brackets. -/
def stepClass (r : Reader) (negated : Bool) (items : List ClassItem) (tail : ClassTail)
    (token : Token) : Except Error Reader :=
  match tail with
  | .empty => r.beginMember negated items token
  | .complete =>
    match token.symbol with
    | .operator .closeClass => .ok (r.endClass negated items)
    | _ => r.beginMember negated items token
  | .single pos c =>
    match token.symbol with
    | .operator .closeClass => .ok (r.endClass negated (.single c :: items))
    | .operator .minus => .ok { r with phase := .inClass negated items (.dash pos c) }
    | _ => r.beginMember negated (.single c :: items) token
  | .dash pos c =>
    match token.symbol with
    | .operator .closeClass => .ok (r.endClass negated (.single '-' :: .single c :: items))
    | .escape _ => refuse token .rangeEnd
    | symbol =>
      if symbol.char < c then .error ⟨pos, .invalidClassRange c symbol.char⟩
      else .ok { r with phase := .inClass negated (.range c symbol.char :: items) .complete }

/-- Reads one token. -/
def step (r : Reader) (token : Token) : Except Error Reader :=
  match r.phase with
  | .start => r.beginOperand token
  | .operand body =>
    match quantifier? token.symbol with
    | some q => .ok { r with phase := .quantified body q }
    | none => r.afterPiece body token
  | .quantified body q =>
    match token.symbol with
    | .operator .question => .ok { r with phase := .piece (.repeated body q false) }
    | _ => r.afterPiece (.repeated body q true) token
  | .piece body => r.afterPiece body token
  | .openClass =>
    match token.symbol with
    | .operator .caret => .ok { r with phase := .inClass true [] .empty }
    | _ => r.stepClass false [] .empty token
  | .inClass negated items tail => r.stepClass negated items tail token

/-- Reads the end of the pattern after a complete piece. -/
def finishPiece (r : Reader) (piece : Pattern) (pos : Nat) : Except Error Pattern :=
  match r.outer with
  | [] => .ok (r.level.close piece)
  | _ :: _ => .error ⟨pos, .unexpected r.closing none⟩

/-- Reads the end of the pattern, which is at offset `pos`. -/
def finish (r : Reader) (pos : Nat) : Except Error Pattern :=
  match r.phase with
  | .start => .error ⟨pos, .unexpected .operand none⟩
  | .operand body => r.finishPiece body pos
  | .quantified body q => r.finishPiece (.repeated body q true) pos
  | .piece body => r.finishPiece body pos
  | .openClass => .error ⟨pos, .unexpected .classMember none⟩
  | .inClass _ _ .empty => .error ⟨pos, .unexpected .classMember none⟩
  | .inClass _ _ (.dash _ _) => .error ⟨pos, .unexpected .rangeEnd none⟩
  | .inClass _ _ _ => .error ⟨pos, .unexpected .closeClass none⟩

/-- Reads a list of tokens. -/
def steps (r : Reader) : List Token → Except Error Reader
  | [] => .ok r
  | token :: rest => r.step token >>= fun r => r.steps rest

@[simp] theorem steps_nil (r : Reader) : r.steps [] = .ok r := rfl

theorem steps_cons (r : Reader) (token : Token) (rest : List Token) :
    r.steps (token :: rest) = r.step token >>= fun r => r.steps rest := rfl

theorem steps_append (r : Reader) (xs ys : List Token) :
    r.steps (xs ++ ys) = r.steps xs >>= fun r => r.steps ys := by
  induction xs generalizing r with
  | nil => rfl
  | cons token xs ih =>
    rw [List.cons_append, steps_cons, steps_cons]
    cases r.step token with
    | error e => rfl
    | ok r => exact ih r

/-- A token that is refused is refused whatever follows it. -/
theorem steps_append_of_error {r : Reader} {xs : List Token} {e : Error}
    (h : r.steps xs = .error e) (ys : List Token) : r.steps (xs ++ ys) = .error e := by
  rw [steps_append, h]
  rfl

end Reader

/-- The pattern that a list of tokens writes; `pos` is the offset of its end. -/
def ofTokens (tokens : List Token) (pos : Nat) : Except Error Pattern :=
  Reader.initial.steps tokens >>= fun r => r.finish pos

/-- The pattern that a text writes. -/
def ofText (t : Text) : Except Error Pattern := ofTokens (Token.ofText t) t.size

end Lockstep.Pattern
