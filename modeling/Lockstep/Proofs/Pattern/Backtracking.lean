import Lockstep.Pattern.Backtracking
import Lockstep.Pattern.Language

/-!
# Backtracking over bodies that consume something

The attempts behind a match have fewer cells left unless the pattern matches the empty word, so the
condition that a further occurrence consumes something can be left out for the bodies of loops that
always do.

* `Attempt.mem_iterate`: the attempts behind any number of occurrences.
* `Attempt.iterate_of_consumes`: the plain equation of a loop; `Attempt.flatMap_iterate`: its
  solutions.
* `Pattern.length_rest_attempts`: how many cells are left behind a match.
-/

namespace Lockstep

namespace Attempt

variable {body : Attempt → List Attempt} {greedy : Bool} {a b : Attempt}

/-- An atom consumes one cell. -/
theorem mem_consume {atom : Atom} (h : b ∈ a.consume atom) :
    ∃ cell rest, a.rest = cell :: rest ∧ b = ⟨rest, a.offset + cell.width, a.slots⟩ := by
  obtain ⟨_ | ⟨cell, rest⟩, offset, slots⟩ := a
  · cases h
  · simp only [consume, List.mem_ite_nil_right, List.mem_singleton] at h
    exact ⟨cell, rest, rfl, h.2⟩

theorem iterate_eq (body : Attempt → List Attempt) (greedy : Bool) (a : Attempt) :
    a.iterate body greedy =
      let again := ((body a).filter fun b => b.rest.length < a.rest.length).flatMap
        (Attempt.iterate body greedy)
      if greedy then again ++ [a] else a :: again := by
  rw [iterate]
  simp only [List.flatMap_subtype, List.unattach_attach]

/-- An iteration ends where it starts, or goes on behind an occurrence that consumes something. -/
theorem mem_iterate : b ∈ a.iterate body greedy ↔
    b = a ∨ ∃ c ∈ body a, c.rest.length < a.rest.length ∧ b ∈ c.iterate body greedy := by
  rw [iterate_eq]
  cases greedy with
  | true => simp [or_comm, and_assoc]
  | false => simp [and_assoc]

theorem length_rest_iterate_le (h : b ∈ a.iterate body greedy) :
    b.rest.length ≤ a.rest.length := by
  induction hn : a.rest.length using Nat.strongRecOn generalizing a with
  | ind n ih =>
    rcases mem_iterate.1 h with rfl | ⟨c, -, hlt, hb⟩
    · exact hn.le
    · exact (ih _ (hn ▸ hlt) hb rfl).trans (hn ▸ hlt.le)

/-- The equation of a loop whose body consumes something. -/
theorem iterate_of_consumes (h : ∀ b ∈ body a, b.rest.length < a.rest.length) :
    a.iterate body greedy =
      let again := (body a).flatMap (Attempt.iterate body greedy)
      if greedy then again ++ [a] else a :: again := by
  rw [iterate_eq, List.filter_eq_self.2 fun b hb => decide_eq_true (h b hb)]

/-- A search that satisfies the equation of a loop goes on behind its iterations. -/
theorem flatMap_iterate {α : Type} {search onwards : Attempt → List α}
    (hbody : ∀ a, ∀ b ∈ body a, b.rest.length < a.rest.length)
    (hsearch : ∀ a, search a = if greedy then (body a).flatMap search ++ onwards a
      else onwards a ++ (body a).flatMap search) (a : Attempt) :
    search a = (a.iterate body greedy).flatMap onwards := by
  induction hn : a.rest.length using Nat.strongRecOn generalizing a with
  | ind n ih =>
    have hagain : (body a).flatMap search =
        ((body a).flatMap (Attempt.iterate body greedy)).flatMap onwards := by
      rw [List.flatMap_assoc]
      exact List.flatMap_congr fun b hb => ih _ (hn ▸ hbody a b hb) b rfl
    rw [hsearch, iterate_of_consumes (hbody a), hagain]
    cases greedy with
    | true => simp
    | false => simp

end Attempt

namespace Pattern

theorem mem_attempts_optional {body : Pattern} {greedy : Bool} {opened : Nat} {a b : Attempt} :
    b ∈ (repeated body .optional greedy).attempts opened a ↔
      b = a ∨ b ∈ body.attempts opened a := by
  cases greedy with
  | true => simp [attempts, or_comm]
  | false => simp [attempts]

/-- No cell comes back behind a match, and one is consumed unless the pattern matches the empty
word. -/
theorem length_rest_attempts {e : Pattern} {opened : Nat} {a b : Attempt}
    (h : b ∈ e.attempts opened a) :
    b.rest.length ≤ a.rest.length ∧ ([] ∉ e.language → b.rest.length < a.rest.length) := by
  induction e generalizing opened a b with
  | atom atom =>
    obtain ⟨cell, rest, hrest, rfl⟩ := Attempt.mem_consume h
    have hlt : rest.length < a.rest.length := by rw [hrest, List.length_cons]; omega
    exact ⟨hlt.le, fun _ => hlt⟩
  | group body ih =>
    obtain ⟨c, hc, rfl⟩ := List.mem_map.1 h
    have hsave := ih hc
    exact hsave
  | concat first second ih₁ ih₂ =>
    obtain ⟨c, hc, hb⟩ := List.mem_flatMap.1 h
    obtain ⟨hle₁, hlt₁⟩ := ih₁ hc
    obtain ⟨hle₂, hlt₂⟩ := ih₂ hb
    refine ⟨hle₂.trans hle₁, fun hnil => ?_⟩
    by_cases hnil₁ : [] ∈ first.language
    · have hnil₂ : [] ∉ second.language := fun h => hnil (Language.append_mem_mul hnil₁ h)
      exact (hlt₂ hnil₂).trans_le hle₁
    · exact hle₂.trans_lt (hlt₁ hnil₁)
  | alternate first second ih₁ ih₂ =>
    rcases List.mem_append.1 h with hb | hb
    · exact (ih₁ hb).imp_right fun hlt hnil => hlt fun h => hnil (Or.inl h)
    · exact (ih₂ hb).imp_right fun hlt hnil => hlt fun h => hnil (Or.inr h)
  | repeated body quantifier greedy ih =>
    cases quantifier with
    | star =>
      exact ⟨Attempt.length_rest_iterate_le h, fun hnil => absurd (Language.nil_mem_kstar _) hnil⟩
    | plus =>
      obtain ⟨c, hc, hb⟩ := List.mem_flatMap.1 h
      obtain ⟨hle, hlt⟩ := ih hc
      have hiter := Attempt.length_rest_iterate_le hb
      refine ⟨hiter.trans hle, fun hnil => hiter.trans_lt (hlt fun h => hnil ?_)⟩
      exact Language.append_mem_mul h (Language.nil_mem_kstar _)
    | optional =>
      refine ⟨?_, fun hnil => absurd (Or.inl Language.nil_mem_one) hnil⟩
      rcases mem_attempts_optional.1 h with rfl | hb
      · exact le_rfl
      · exact (ih hb).1

end Pattern

end Lockstep
