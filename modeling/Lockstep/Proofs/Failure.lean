import Mathlib.Data.List.Forall2

/-!
# Computations that may fail

A computation gives a value or fails. If one is made for each member of a list, then all values are
given together, or the first failure is.

* `bind_eq_ok_iff`, `bind_eq_error_iff`: one computation after another.
* `mapM_eq_some_map`: no computation in a list fails.
* `mapM_eq_ok_iff`, `mapM_eq_error_iff`: the values of a list of computations, and their failure.
-/

namespace Lockstep

section Option

variable {α β : Type}

theorem mapM_eq_some_map {f : α → Option β} {g : α → β} {xs : List α}
    (h : ∀ x ∈ xs, f x = some (g x)) : xs.mapM f = some (xs.map g) := by
  induction xs with
  | nil => rfl
  | cons x xs ih =>
    obtain ⟨hx, hxs⟩ := List.forall_mem_cons.1 h
    simp [hx, ih hxs]

end Option

section Except

variable {ε α β : Type} {a : α} {b : β} {e e' : ε}

theorem getD_map_ok_eq_ok_iff {o : Option α} :
    (o.map Except.ok).getD (.error e) = .ok a ↔ o = some a := by
  cases o <;> simp

theorem getD_map_ok_eq_error_iff {o : Option α} :
    (o.map Except.ok).getD (.error e) = .error e' ↔ (¬ ∃ a, o = some a) ∧ e = e' := by
  cases o <;> simp

theorem bind_eq_ok_iff {x : Except ε α} {f : α → Except ε β} :
    x >>= f = .ok b ↔ ∃ a, x = .ok a ∧ f a = .ok b := by
  cases x with
  | error e' =>
    refine iff_of_false (fun h => ?_) (by rintro ⟨a, ⟨⟩, -⟩)
    cases h
  | ok a =>
    constructor
    · exact fun h => ⟨a, rfl, h⟩
    · rintro ⟨a', ⟨⟩, h⟩
      exact h

theorem bind_eq_error_iff {x : Except ε α} {f : α → Except ε β} :
    x >>= f = .error e ↔ x = .error e ∨ ∃ a, x = .ok a ∧ f a = .error e := by
  cases x with
  | error e' =>
    constructor
    · rintro ⟨⟩
      exact Or.inl rfl
    · rintro (⟨⟨⟩⟩ | ⟨a, ⟨⟩, -⟩)
      rfl
  | ok a =>
    constructor
    · exact fun h => Or.inr ⟨a, rfl, h⟩
    · rintro (h | ⟨a', ⟨⟩, h⟩)
      · cases h
      · exact h

theorem bind_pure_eq_error_iff {x : Except ε α} {f : α → β} :
    (x >>= fun a => pure (f a)) = .error e ↔ x = .error e := by
  rw [bind_eq_error_iff]
  exact or_iff_left nofun

variable {f : α → Except ε β} {xs : List α} {ys : List β}

theorem mapM_eq_ok_iff : xs.mapM f = .ok ys ↔ List.Forall₂ (fun x y => f x = .ok y) xs ys := by
  constructor
  · intro h
    induction xs generalizing ys with
    | nil =>
      cases h
      exact .nil
    | cons x xs ih =>
      rw [List.mapM_cons] at h
      obtain ⟨y, hy, h⟩ := bind_eq_ok_iff.1 h
      obtain ⟨ys, hys, ⟨⟩⟩ := bind_eq_ok_iff.1 h
      exact .cons hy (ih hys)
  · intro h
    induction h with
    | nil => rfl
    | cons hy _ ih =>
      rw [List.mapM_cons, hy, ih]
      rfl

/-- The first failure stands behind members that do not fail. -/
theorem mapM_eq_error_iff : xs.mapM f = .error e ↔ ∃ before x after ys, xs = before ++ x :: after ∧
    List.Forall₂ (fun x y => f x = .ok y) before ys ∧ f x = .error e := by
  constructor
  · intro h
    induction xs with
    | nil => cases h
    | cons x xs ih =>
      rw [List.mapM_cons, bind_eq_error_iff] at h
      rcases h with hx | ⟨y, hy, h⟩
      · exact ⟨[], x, xs, [], rfl, .nil, hx⟩
      · obtain ⟨before, x', after, ys, rfl, hbefore, hx'⟩ := ih (bind_pure_eq_error_iff.1 h)
        exact ⟨x :: before, x', after, y :: ys, rfl, .cons hy hbefore, hx'⟩
  · rintro ⟨before, x, after, ys, rfl, hbefore, hx⟩
    induction hbefore with
    | nil =>
      rw [List.nil_append, List.mapM_cons, hx]
      rfl
    | cons hy _ ih =>
      rw [List.cons_append, List.mapM_cons, hy, ih]
      rfl

end Except

end Lockstep
