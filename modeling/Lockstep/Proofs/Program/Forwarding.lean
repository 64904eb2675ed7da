import Lockstep.Program.Chain
import Mathlib.Data.Finset.Card
import Mathlib.Logic.Function.Iterate

/-!
# Forwarding of labels

Labels form a forest: a label that stands for itself is a root, and every other label points
towards one. Forwarding a root to another root keeps this, whichever of the two is older, and makes
the paths at most one step longer. So no path is longer than the number of labels that have been
forwarded, and the steps that `Labels.resolve` allows are enough to reach a root.

* `Labels.IsFinal`: a label stands for itself.
* `Labels.forwarded`: the labels that stand for another one.
* `Labels.Settled`: every path ends; `Settled.add` and `Settled.forward` keep it.
* `Settled.resolve_apply`: a label is resolved to what its target is resolved to.
-/

namespace Lockstep.Labels

variable {labels : Labels} {source target l : Nat}

@[simp] theorem size_add : labels.add.size = labels.size + 1 := by
  simp [add, size]

@[simp] theorem size_forward : (labels.forward source target).size = labels.size := by
  simp [forward, size]

/-- What has not been handed out stands for itself. -/
theorem apply_of_size_le (h : labels.size ≤ l) : labels.apply l = l := by
  rw [apply, Array.getElem?_eq_none h, Option.getD_none]

/-- A new label changes nothing about the others, and stands for itself. -/
@[simp] theorem apply_add : labels.add.apply l = labels.apply l := by
  by_cases h : l = labels.table.size
  · subst h
    simp [apply, add, size]
  · simp [apply, add, Array.getElem?_push, h]

theorem apply_forward (h : source < labels.size) :
    (labels.forward source target).apply l = if l = source then target else labels.apply l := by
  simp only [apply, forward, Array.getElem?_setIfInBounds]
  by_cases hl : source = l
  · subst hl
    rw [if_pos rfl, if_pos (show source < labels.table.size from h), if_pos rfl,
      Option.getD_some]
  · rw [if_neg hl, if_neg (Ne.symm hl)]

/-! ### Roots -/

/-- A label stands for itself. -/
def IsFinal (labels : Labels) (l : Nat) : Prop := labels.apply l = l

theorem isFinal_add : labels.add.IsFinal l ↔ labels.IsFinal l := by
  rw [IsFinal, IsFinal, apply_add]

theorem isFinal_of_size_le (h : labels.size ≤ l) : labels.IsFinal l := apply_of_size_le h

/-- Forwarding one label leaves all others as they are. -/
theorem IsFinal.forward (h : labels.IsFinal l) (target : Nat) (hs : source < labels.size)
    (hl : l ≠ source) : (labels.forward source target).IsFinal l := by
  rw [IsFinal, apply_forward hs, if_neg hl]
  exact h

theorem iterate_of_isFinal (h : labels.IsFinal l) (n : Nat) : labels.apply^[n] l = l :=
  Function.iterate_fixed h n

/-- Following a label is forwarding it again and again. -/
theorem follow_eq_iterate (n l : Nat) : labels.follow n l = labels.apply^[n] l := by
  induction n generalizing l with
  | zero => rfl
  | succ n ih =>
    rw [follow, Function.iterate_succ_apply]
    split
    · rename_i h
      rw [h, iterate_of_isFinal h]
    · exact ih _

/-! ### Paths -/

/-- The labels that stand for another one. -/
def forwarded (labels : Labels) : Finset Nat :=
  {l ∈ Finset.range labels.size | labels.apply l ≠ l}

theorem mem_forwarded : l ∈ labels.forwarded ↔ l < labels.size ∧ ¬ labels.IsFinal l := by
  simp [forwarded, IsFinal]

theorem card_forwarded_le : labels.forwarded.card ≤ labels.size :=
  (Finset.card_filter_le _ _).trans_eq (Finset.card_range _)

theorem forwarded_add : labels.add.forwarded = labels.forwarded := by
  ext l
  rw [mem_forwarded, mem_forwarded, isFinal_add, size_add]
  constructor
  · rintro ⟨-, h⟩
    exact ⟨Nat.lt_of_not_le fun hl => h (isFinal_of_size_le hl), h⟩
  · rintro ⟨hl, h⟩
    exact ⟨Nat.lt_succ_of_lt hl, h⟩

theorem forwarded_forward (hs : source < labels.size) (hne : target ≠ source) :
    (labels.forward source target).forwarded = insert source labels.forwarded := by
  ext l
  rw [Finset.mem_insert, mem_forwarded, mem_forwarded, IsFinal, apply_forward hs, size_forward]
  by_cases hl : l = source
  · subst hl
    simp [hs, hne]
  · simp [hl, IsFinal]

/-- Every path ends, after no more steps than labels have been forwarded. -/
def Settled (labels : Labels) : Prop :=
  ∀ l, labels.IsFinal (labels.apply^[labels.forwarded.card] l)

theorem settled_none : none.Settled := fun _ => apply_of_size_le (Nat.zero_le _)

theorem Settled.add (h : labels.Settled) : labels.add.Settled := by
  have happly : labels.add.apply = labels.apply := funext fun _ => apply_add
  intro l
  rw [isFinal_add, forwarded_add, happly]
  exact h l

/-- A path to a root goes on for at most one more step once a root is forwarded to another one. -/
theorem isFinal_iterate_forward (hs : source < labels.size) (hsource : labels.IsFinal source)
    (htarget : labels.IsFinal target) (hne : target ≠ source) (n : Nat) :
    ∀ l, labels.IsFinal (labels.apply^[n] l) →
      (labels.forward source target).IsFinal
        ((labels.forward source target).apply^[n + 1] l) := by
  have hroot : ∀ l m, labels.IsFinal l → (labels.forward source target).IsFinal
      ((labels.forward source target).apply^[m + 1] l) := by
    intro l m hl
    by_cases h : l = source
    · subst h
      have htarget' := htarget.forward target hs hne
      rwa [Function.iterate_succ_apply, apply_forward hs, if_pos rfl,
        iterate_of_isFinal htarget']
    · have hl' := hl.forward target hs h
      rwa [iterate_of_isFinal hl']
  induction n with
  | zero => exact fun l hl => hroot l 0 hl
  | succ n ih =>
    intro l hl
    by_cases h : labels.IsFinal l
    · exact hroot l _ h
    · -- A label that is no root is not the one that is forwarded, so it is followed as before.
      have hl' : l ≠ source := fun he => h (he ▸ hsource)
      rw [Function.iterate_succ_apply, apply_forward hs, if_neg hl']
      exact ih _ hl

/-- Paths end as before when a root is forwarded to another one. -/
theorem Settled.forward (h : labels.Settled) (hs : source < labels.size)
    (hsource : labels.IsFinal source) (htarget : labels.IsFinal target) (hne : target ≠ source) :
    (labels.forward source target).Settled := by
  have hmem : source ∉ labels.forwarded := fun hm => (mem_forwarded.1 hm).2 hsource
  intro l
  -- One more label is forwarded, which pays for the one more step that a path may take.
  rw [forwarded_forward hs hne, Finset.card_insert_of_notMem hmem]
  exact isFinal_iterate_forward hs hsource htarget hne _ l (h l)

/-! ### Resolving -/

theorem resolve_of_isFinal (h : labels.IsFinal l) : labels.resolve l = l := by
  rw [resolve, follow_eq_iterate, iterate_of_isFinal h]

theorem Settled.iterate_eq_resolve (h : labels.Settled) {n : Nat}
    (hn : labels.forwarded.card ≤ n) : labels.apply^[n] l = labels.resolve l := by
  have hroot : ∀ m, labels.forwarded.card ≤ m →
      labels.apply^[m] l = labels.apply^[labels.forwarded.card] l := by
    intro m hm
    obtain ⟨k, rfl⟩ := Nat.exists_eq_add_of_le hm
    rw [Nat.add_comm, Function.iterate_add_apply, iterate_of_isFinal (h l)]
  rw [resolve, follow_eq_iterate, hroot n hn, hroot _ card_forwarded_le]

/-- A label is resolved to what its target is resolved to. -/
theorem Settled.resolve_apply (h : labels.Settled) (l : Nat) :
    labels.resolve (labels.apply l) = labels.resolve l := by
  rw [← h.iterate_eq_resolve (Nat.le_refl _), ← Function.iterate_succ_apply,
    h.iterate_eq_resolve (Nat.le_succ _)]

end Lockstep.Labels
