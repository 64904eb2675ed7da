import Lockstep.Pattern.Reader
import Lockstep.Proofs.Text.Conversion

/-!
# Reading patterns from bytes and from characters

The tokens of a text depend on its characters, and the widths of these only tell where a token
starts. A reader carries offsets along for the errors that it may report, but it never decides by
them. So a pattern is read alike from two texts with the same characters, and an error that is found
in one is found in the other at the corresponding offset.

* `Token.relocate`, `Pattern.Reader.relocate`, `Pattern.Error.relocate`: tokens, readers and errors
  with other offsets.
* `Token.tokenize_eq_map_relocate`: the tokens of aligned cells.
* `Pattern.Reader.step_relocate`: reading one token; `Pattern.Reader.steps_relocate`: reading many.
* `Pattern.ofText_widened`: a pattern in some bytes and in their widened text.
-/

namespace Lockstep

variable (φ : Nat → Nat)

/-- A token at another offset. -/
def Token.relocate (token : Token) : Token := ⟨φ token.pos, token.symbol⟩

/-- The tokens of aligned cells have the same symbols, at corresponding offsets. -/
theorem Token.tokenize_eq_map_relocate {cells cells' : List Cell} {pos pos' : Nat}
    (h : Aligned (φ · = ·) cells pos cells' pos') :
    tokenize pos' cells' = (tokenize pos cells).map (Token.relocate φ) := by
  induction pos, cells using tokenize.induct generalizing cells' pos' with
  | case1 pos =>
    cases h
    rfl
  | case2 pos cell =>
    obtain _ | ⟨rfl, hchar, ⟨-⟩⟩ := h
    show _ = [Token.relocate φ ⟨pos, Symbol.ofChar cell.char⟩]
    rw [hchar]
    rfl
  | case3 pos cell next rest hc ih =>
    obtain _ | ⟨rfl, hchar, _ | ⟨-, hnext, hrest⟩⟩ := h
    rw [tokenize, if_pos (hchar ▸ hc), tokenize, if_pos hc, ih hrest, List.map_cons, ← hnext]
    rfl
  | case4 pos cell next rest hc ih =>
    obtain _ | ⟨rfl, hchar, hrest⟩ := h
    obtain _ | ⟨hat, hnext, hrest'⟩ := id hrest
    rw [tokenize, if_neg (hchar ▸ hc), tokenize, if_neg hc, ih hrest, List.map_cons, ← hchar]
    rfl

namespace Pattern

/-- An error at another offset. -/
def Error.relocate (e : Error) : Error := ⟨φ e.pos, e.fault⟩

/-- The tail of a class with other offsets. -/
def ClassTail.relocate : ClassTail → ClassTail
  | single pos c => single (φ pos) c
  | dash pos c => dash (φ pos) c
  | tail => tail

/-- A phase with other offsets. -/
def Phase.relocate : Phase → Phase
  | inClass negated items tail => inClass negated items (tail.relocate φ)
  | phase => phase

namespace Reader

/-- A reader with other offsets. -/
def relocate (r : Reader) : Reader := { r with phase := r.phase.relocate φ }

/-- A reader with other offsets, or an error at another one. -/
def relocateResult : Except Error Reader → Except Error Reader
  | .ok r => .ok (r.relocate φ)
  | .error e => .error (e.relocate φ)

variable (r : Reader) (token : Token)

theorem beginOperand_relocate :
    (r.relocate φ).beginOperand (token.relocate φ) = relocateResult φ (r.beginOperand token) := by
  obtain ⟨pos, symbol⟩ := token
  cases symbol with
  | literal c => rfl
  | escape letter =>
    simp only [beginOperand, Token.relocate]
    cases Shorthand.ofLetter? letter <;> rfl
  | operator op =>
    cases op with
    | openGroup =>
      simp only [beginOperand, Token.relocate, relocate, apply_ite (relocateResult φ)]
      rfl
    | _ => rfl

theorem afterPiece_relocate (piece : Pattern) :
    (r.relocate φ).afterPiece piece (token.relocate φ) =
      relocateResult φ (r.afterPiece piece token) := by
  have hbegin := beginOperand_relocate φ ⟨r.level.addPiece piece, r.outer, .start⟩ token
  obtain ⟨pos, symbol⟩ := token
  cases symbol with
  | operator op =>
    cases op with
    | closeGroup => obtain ⟨level, _ | ⟨outer, rest⟩, phase⟩ := r <;> rfl
    | bar | closeClass | star | plus | question => rfl
    | _ => exact hbegin
  | _ => exact hbegin

theorem beginMember_relocate (negated : Bool) (items : List ClassItem) :
    (r.relocate φ).beginMember negated items (token.relocate φ) =
      relocateResult φ (r.beginMember negated items token) := by
  obtain ⟨pos, symbol⟩ := token
  cases symbol with
  | literal c => rfl
  | escape letter =>
    simp only [beginMember, Token.relocate]
    rcases Shorthand.ofLetter? letter with _ | ⟨s, _ | _⟩ <;> rfl
  | operator op => cases op <;> rfl

theorem stepClass_relocate (negated : Bool) (items : List ClassItem) (tail : ClassTail) :
    (r.relocate φ).stepClass negated items (tail.relocate φ) (token.relocate φ) =
      relocateResult φ (r.stepClass negated items tail token) := by
  have hmember := beginMember_relocate φ r token negated
  cases tail with
  | empty => exact hmember items
  | complete =>
    obtain ⟨pos, symbol⟩ := token
    cases symbol with
    | operator op =>
      cases op with
      | closeClass => rfl
      | _ => exact hmember items
    | _ => exact hmember items
  | single pos c =>
    obtain ⟨start, symbol⟩ := token
    cases symbol with
    | operator op =>
      cases op with
      | closeClass | minus => rfl
      | _ => exact hmember (.single c :: items)
    | _ => exact hmember (.single c :: items)
  | dash pos c =>
    obtain ⟨start, symbol⟩ := token
    -- Every symbol that stands for itself may end the range, if it does not come before `c`.
    have hend (x : Symbol) :
        relocateResult φ (if x.char < c then .error ⟨pos, .invalidClassRange c x.char⟩
          else .ok ⟨r.level, r.outer, .inClass negated (.range c x.char :: items) .complete⟩) = _ :=
      apply_ite (relocateResult φ) _ _ _
    cases symbol with
    | literal d => exact (hend (.literal d)).symm
    | escape letter => rfl
    | operator op =>
      cases op with
      | closeClass => rfl
      | _ => exact (hend (.operator _)).symm

/-- **Step.** A token is read alike at another offset. -/
theorem step_relocate :
    (r.relocate φ).step (token.relocate φ) = relocateResult φ (r.step token) := by
  obtain ⟨level, outer, phase⟩ := r
  cases phase with
  | start => exact beginOperand_relocate φ ⟨level, outer, .start⟩ token
  | operand body =>
    simp only [step, relocate, Phase.relocate, Token.relocate]
    cases quantifier? token.symbol with
    | some q => rfl
    | none => exact afterPiece_relocate φ ⟨level, outer, .operand body⟩ token body
  | quantified body q =>
    have hafter := afterPiece_relocate φ ⟨level, outer, .quantified body q⟩ token
      (.repeated body q true)
    obtain ⟨pos, symbol⟩ := token
    cases symbol with
    | operator op =>
      cases op with
      | question => rfl
      | _ => exact hafter
    | _ => exact hafter
  | piece body => exact afterPiece_relocate φ ⟨level, outer, .piece body⟩ token body
  | openClass =>
    have hclass := stepClass_relocate φ ⟨level, outer, .openClass⟩ token false [] .empty
    obtain ⟨pos, symbol⟩ := token
    cases symbol with
    | operator op =>
      cases op with
      | caret => rfl
      | _ => exact hclass
    | _ => exact hclass
  | inClass negated items tail =>
    exact stepClass_relocate φ ⟨level, outer, .inClass negated items tail⟩ token negated items tail

/-- **Run.** Tokens are read alike at other offsets. -/
theorem steps_relocate (tokens : List Token) :
    (r.relocate φ).steps (tokens.map (Token.relocate φ)) = relocateResult φ (r.steps tokens) := by
  induction tokens generalizing r with
  | nil => rfl
  | cons token tokens ih =>
    rw [List.map_cons, steps_cons, steps_cons, step_relocate]
    cases r.step token with
    | error e => rfl
    | ok r => exact ih r

/-- The end of the pattern is read alike at another offset. -/
theorem finish_relocate (pos : Nat) :
    (r.relocate φ).finish (φ pos) = (r.finish pos).mapError (Error.relocate φ) := by
  obtain ⟨level, outer, phase⟩ := r
  cases phase with
  | start => rfl
  | openClass => rfl
  | inClass negated items tail => cases tail <;> rfl
  | _ => cases outer <;> rfl

end Reader

/-- A pattern is read alike from cells with the same characters. -/
theorem ofTokens_relocate (tokens : List Token) (pos : Nat) :
    ofTokens (tokens.map (Token.relocate φ)) (φ pos) =
      (ofTokens tokens pos).mapError (Error.relocate φ) := by
  have hsteps := Reader.steps_relocate φ .initial tokens
  rw [ofTokens, ofTokens]
  show ((Reader.initial.relocate φ).steps _ >>= _) = _
  rw [hsteps]
  cases Reader.initial.steps tokens with
  | error e => rfl
  | ok r => exact r.finish_relocate φ pos

/-- The pattern in some bytes is the one in their widened text, and so is the error in them. -/
theorem ofText_widened (bytes : List UInt8) :
    ofText (.widened bytes) =
      (ofText (.narrow bytes)).mapError (Error.relocate (Text.widenedOffset bytes)) := by
  have haligned := Text.aligned_widened bytes 0
  have hzero : Text.widenedOffset bytes 0 = 0 := rfl
  rw [hzero, Text.cellsFrom_zero, Text.cellsFrom_zero] at haligned
  rw [ofText, ofText, Token.ofText, Token.tokenize_eq_map_relocate _ haligned,
    ← Text.widenedOffset_length]
  exact ofTokens_relocate _ _ _

end Pattern

end Lockstep
