import Lockstep.Pattern.Basic
import Mathlib.Computability.Language
import Mathlib.Order.CompletePartialOrder

/-!
# The language of a pattern

The words that a pattern stands for, without regard to groups and priorities: a greedy repetition
and a lazy one have the same language.

* `Pattern.language`, with one lemma for each way to build a pattern.
* `Pattern.nullable`: whether the empty word belongs to it.
* `Pattern.LoopsConsume`: the empty word belongs to no body of a loop.
-/

namespace Lockstep.Pattern

open scoped Computability

/-- The words that a pattern stands for. -/
def language : Pattern → Language Char
  | atom a => {w | ∃ c, a.accepts c = true ∧ w = [c]}
  | group body => body.language
  | concat first second => first.language * second.language
  | alternate first second => first.language + second.language
  | repeated body .star _ => body.language∗
  | repeated body .plus _ => body.language * body.language∗
  | repeated body .optional _ => 1 + body.language

theorem mem_language_atom {a : Atom} {w : List Char} :
    w ∈ (atom a).language ↔ ∃ c, a.accepts c = true ∧ w = [c] := Iff.rfl

@[simp] theorem language_group (body : Pattern) : (group body).language = body.language := rfl

@[simp] theorem language_concat (first second : Pattern) :
    (concat first second).language = first.language * second.language := rfl

@[simp] theorem language_alternate (first second : Pattern) :
    (alternate first second).language = first.language + second.language := rfl

@[simp] theorem language_star (body : Pattern) (greedy : Bool) :
    (repeated body .star greedy).language = body.language∗ := rfl

@[simp] theorem language_plus (body : Pattern) (greedy : Bool) :
    (repeated body .plus greedy).language = body.language * body.language∗ := rfl

@[simp] theorem language_optional (body : Pattern) (greedy : Bool) :
    (repeated body .optional greedy).language = 1 + body.language := rfl

/-- Whether the empty word belongs to the language of a pattern. -/
def nullable : Pattern → Bool
  | atom _ => false
  | group body => body.nullable
  | concat first second => first.nullable && second.nullable
  | alternate first second => first.nullable || second.nullable
  | repeated _ .star _ => true
  | repeated body .plus _ => body.nullable
  | repeated _ .optional _ => true

/-- The empty word belongs to the language of a pattern just if the pattern is nullable. -/
theorem nullable_iff {e : Pattern} : e.nullable = true ↔ [] ∈ e.language := by
  induction e with
  | atom a => simp [nullable, mem_language_atom]
  | group body ih => simpa [nullable] using ih
  | concat first second ih₁ ih₂ => simp [nullable, Language.mem_mul, ih₁, ih₂]
  | alternate first second ih₁ ih₂ =>
    rw [nullable, Bool.or_eq_true, language_alternate, Language.mem_add, ih₁, ih₂]
  | repeated body quantifier greedy ih =>
    cases quantifier with
    | star => simp [nullable, Language.nil_mem_kstar]
    | plus => simp [nullable, Language.mem_mul, Language.nil_mem_kstar, ih]
    | optional =>
      rw [language_optional, Language.mem_add]
      exact iff_of_true rfl (Or.inl Language.nil_mem_one)

/-- No body that may be repeated any number of times matches the empty word. -/
def LoopsConsume : Pattern → Prop
  | atom _ => True
  | group body => body.LoopsConsume
  | concat first second => first.LoopsConsume ∧ second.LoopsConsume
  | alternate first second => first.LoopsConsume ∧ second.LoopsConsume
  | repeated body .star _ => [] ∉ body.language ∧ body.LoopsConsume
  | repeated body .plus _ => [] ∉ body.language ∧ body.LoopsConsume
  | repeated body .optional _ => body.LoopsConsume

instance decidableNilMemLanguage (e : Pattern) : Decidable ([] ∈ e.language) :=
  decidable_of_iff _ nullable_iff

instance decidableLoopsConsume : (e : Pattern) → Decidable e.LoopsConsume
  | atom _ => isTrue trivial
  | group body => decidableLoopsConsume body
  | concat first second =>
    @instDecidableAnd _ _ (decidableLoopsConsume first) (decidableLoopsConsume second)
  | alternate first second =>
    @instDecidableAnd _ _ (decidableLoopsConsume first) (decidableLoopsConsume second)
  | repeated body .star _ => @instDecidableAnd _ _ inferInstance (decidableLoopsConsume body)
  | repeated body .plus _ => @instDecidableAnd _ _ inferInstance (decidableLoopsConsume body)
  | repeated body .optional _ => decidableLoopsConsume body

end Lockstep.Pattern
