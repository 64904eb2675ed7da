import Lockstep.Proofs.Pattern.Completeness
import Lockstep.Proofs.Pattern.Lexing

/-!
# Completing a pattern

Whatever a reader has taken so far is the beginning of a pattern: some characters bring the reader
to the end of a piece, and closing parentheses then end the groups that are open.

* `Pattern.Phase.completion`: the characters that lead to the end of a piece;
  `Pattern.Reader.steps_completion`.
* `Pattern.Reader.steps_closeGroups`: closing the open groups.
* `Pattern.Reader.completion`, `Pattern.Reader.exists_ofTokens_completion`: the rest of a pattern.
-/

namespace Lockstep.Pattern

/-- Characters that lead to the end of a piece. -/
def Phase.completion : Phase → List Char
  | .start => ['a']
  | .operand _ | .quantified _ _ | .piece _ => []
  | .openClass | .inClass _ _ .empty => ['a', ']']
  | .inClass _ _ _ => [']']

theorem Phase.mem_completion {phase : Phase} {c : Char} (h : c ∈ phase.completion) :
    c = 'a' ∨ c = ']' := by
  cases phase with
  | start => exact Or.inl (List.mem_singleton.1 h)
  | openClass => simpa [Phase.completion] using h
  | inClass negated items tail => cases tail <;> simp_all [Phase.completion]
  | _ => cases h

namespace Reader

/-- Characters that complete a pattern. -/
def completion (r : Reader) : List Char :=
  r.phase.completion ++ List.replicate r.outer.length ')'

variable {r : Reader} {tokens : List Token}

/-- A closing bracket ends a class that has a member. -/
theorem steps_closeClass {level : Level} {outer : List Level} {negated : Bool}
    {items : List ClassItem} {tail : ClassTail} (htail : tail ≠ .empty)
    (h : tokens.map Token.symbol = [.operator .closeClass]) :
    Reader.steps ⟨level, outer, .inClass negated items tail⟩ tokens =
      .ok ⟨level, outer, .operand (.atom (.bracket negated (tail.flush items).reverse))⟩ :=
  steps_singleton h fun _ => stepClass_closeClass htail rfl

/-- The completion of a phase leads to the end of a piece. -/
theorem steps_completion (h : tokens.map Token.symbol = r.phase.completion.map Symbol.ofChar) :
    ∃ r' piece, r.steps tokens = .ok r' ∧ r'.outer = r.outer ∧ r'.phase.piece? = some piece := by
  obtain ⟨level, outer, phase⟩ := r
  cases phase with
  | start => exact ⟨_, _, steps_singleton h fun pos => rfl, rfl, rfl⟩
  | operand body | quantified body q | piece body =>
    obtain rfl := List.map_eq_nil_iff.1 h
    exact ⟨_, _, rfl, rfl, rfl⟩
  | openClass =>
    obtain ⟨⟨pos, symbol⟩, rest, rfl, rfl, hrest⟩ := List.map_eq_cons_iff.1 h
    have hclose : Reader.steps ⟨level, outer, .inClass false [] (.single pos 'a')⟩ rest = _ :=
      steps_closeClass nofun hrest
    exact ⟨_, _, hclose, rfl, rfl⟩
  | inClass negated items tail =>
    cases tail with
    | empty =>
      obtain ⟨⟨pos, symbol⟩, rest, rfl, rfl, hrest⟩ := List.map_eq_cons_iff.1 h
      have hclose :
          Reader.steps ⟨level, outer, .inClass negated items (.single pos 'a')⟩ rest = _ :=
        steps_closeClass nofun hrest
      exact ⟨_, _, hclose, rfl, rfl⟩
    | complete | single pos c | dash pos c => exact ⟨_, _, steps_closeClass nofun h, rfl, rfl⟩

/-- Closing parentheses end the groups that are open. -/
theorem steps_closeGroups {piece : Pattern} (hpiece : r.phase.piece? = some piece)
    (h : tokens.map Token.symbol = List.replicate r.outer.length (.operator .closeGroup)) :
    ∃ r' piece', r.steps tokens = .ok r' ∧ r'.outer = [] ∧ r'.phase.piece? = some piece' := by
  obtain ⟨level, outer, phase⟩ := r
  induction outer generalizing level phase piece tokens with
  | nil =>
    obtain rfl := List.map_eq_nil_iff.1 h
    exact ⟨_, piece, rfl, rfl, hpiece⟩
  | cons around outer ih =>
    obtain ⟨⟨pos, symbol⟩, rest, rfl, rfl, hrest⟩ := List.map_eq_cons_iff.1 h
    have hstep : Reader.step ⟨level, around :: outer, phase⟩ ⟨pos, .operator .closeGroup⟩ =
        .ok ⟨around, outer, .operand (.group (level.close piece))⟩ :=
      step_eq_afterPiece hpiece rfl
    rw [steps_cons_of_ok hstep]
    exact ih around (.operand _) rfl hrest

/-- A pattern ends well behind its completion. -/
theorem exists_finish_completion (h : tokens.map Token.symbol = r.completion.map Symbol.ofChar)
    (pos : Nat) : ∃ e, (r.steps tokens >>= fun r => r.finish pos) = .ok e := by
  rw [completion, List.map_append, List.map_replicate] at h
  obtain ⟨front, back, rfl, hfront, hback⟩ := List.map_eq_append_iff.1 h
  obtain ⟨r₁, piece, hsteps, houter, hpiece⟩ := steps_completion hfront
  rw [← houter] at hback
  obtain ⟨r₂, piece', hclose, hnil, hpiece'⟩ := steps_closeGroups hpiece hback
  refine ⟨r₂.level.close piece', ?_⟩
  rw [steps_append_of_ok hsteps, hclose]
  show r₂.finish pos = _
  rw [finish_of_piece hpiece', finishPiece, hnil]

/-- A completion is written without backslashes, in characters of one byte. -/
theorem mem_completion {c : Char} (h : c ∈ r.completion) : c.toNat < 128 ∧ c ≠ '\\' := by
  rw [completion, List.mem_append] at h
  obtain h | h := h
  · obtain rfl | rfl := Phase.mem_completion h <;> decide
  · rw [List.eq_of_mem_replicate h]
    decide

end Reader

end Lockstep.Pattern
