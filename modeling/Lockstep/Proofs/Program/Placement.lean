import Lockstep.Program.OfPattern
import Lockstep.Proofs.Program.Forwarding

/-!
# Labels handed out and labels placed

What building a chain does to the labels, and what it takes to give them positions.

* `Chain.labels`: the labels of a chain, with the one at its exit.
* `Labels.Grows`: the labels after something has been built, with the new ones that still stand for
  themselves. There is one rule for each thing that a construction does with labels.
* `Labels.Respects`: a map to positions gives a label and its target the same position.
* `Placed`: a map to positions puts labels one after the other.
-/

namespace Lockstep

/-- The labels of a chain, in order, with the one at its exit. -/
def Chain.labels (c : Chain) : List Nat := c.code.map Fragment.label ++ [c.exit]

theorem Chain.labels_mk (head : Fragment) (tail : List Fragment) (exit : Nat) :
    Chain.labels ⟨head, tail, exit⟩ = head.label :: tail.map Fragment.label ++ [exit] := rfl

theorem Chain.labels_eq_map (c : Chain) : c.labels = c.fragments.map Fragment.label := by
  simp [labels, fragments]

theorem Chain.entry_mem_labels (c : Chain) : c.entry ∈ c.labels :=
  List.mem_append_left _ (List.mem_map_of_mem List.mem_cons_self)

theorem Chain.exit_mem_labels (c : Chain) : c.exit ∈ c.labels := by simp [labels]

namespace Labels

variable {L L₁ L₂ : Labels} {live live₁ live₂ : List Nat} {source target : Nat} {π : Nat → Nat}

/-- `L₁` comes from `L` by handing out labels, among them the distinct labels `live`, which stand
for themselves. Labels that `L` had handed out are as they were, and paths still end. -/
structure Grows (L L₁ : Labels) (live : List Nat) : Prop where
  size_le : L.size ≤ L₁.size
  apply_eq : ∀ l < L.size, L₁.apply l = L.apply l
  nodup : live.Nodup
  mem_bounds : ∀ l ∈ live, L.size ≤ l ∧ l < L₁.size
  isFinal : ∀ l ∈ live, L₁.IsFinal l
  settled : L.Settled → L₁.Settled

theorem Grows.refl (L : Labels) : Grows L L [] where
  size_le := Nat.le_refl _
  apply_eq _ _ := rfl
  nodup := List.nodup_nil
  mem_bounds := by simp
  isFinal := by simp
  settled := id

theorem Grows.perm (h : Grows L L₁ live) (hp : live.Perm live₁) : Grows L L₁ live₁ where
  size_le := h.size_le
  apply_eq := h.apply_eq
  nodup := hp.nodup_iff.1 h.nodup
  mem_bounds l hl := h.mem_bounds l (hp.mem_iff.2 hl)
  isFinal l hl := h.isFinal l (hp.mem_iff.2 hl)
  settled := h.settled

/-- A new label stands for itself. -/
theorem Grows.add (h : Grows L L₁ live) : Grows L L₁.add (L₁.size :: live) where
  size_le := h.size_le.trans (by simp)
  apply_eq l hl := by rw [apply_add, h.apply_eq l hl]
  nodup := List.nodup_cons.2 ⟨fun hmem => Nat.lt_irrefl _ (h.mem_bounds _ hmem).2, h.nodup⟩
  mem_bounds l hl := by
    rw [size_add]
    rcases List.mem_cons.1 hl with rfl | hl
    · exact ⟨h.size_le, Nat.lt_succ_self _⟩
    · exact ⟨(h.mem_bounds l hl).1, Nat.lt_succ_of_lt (h.mem_bounds l hl).2⟩
  isFinal l hl := by
    rw [isFinal_add]
    rcases List.mem_cons.1 hl with rfl | hl
    · exact isFinal_of_size_le (Nat.le_refl _)
    · exact h.isFinal l hl
  settled hs := (h.settled hs).add

/-- Two constructions, one after the other. -/
theorem Grows.trans (h₁ : Grows L L₁ live₁) (h₂ : Grows L₁ L₂ live₂) :
    Grows L L₂ (live₁ ++ live₂) where
  size_le := h₁.size_le.trans h₂.size_le
  apply_eq l hl := by rw [h₂.apply_eq l (hl.trans_le h₁.size_le), h₁.apply_eq l hl]
  nodup := h₁.nodup.append h₂.nodup fun l hl₁ hl₂ =>
    Nat.not_lt.2 (h₂.mem_bounds l hl₂).1 (h₁.mem_bounds l hl₁).2
  mem_bounds l hl := by
    rcases List.mem_append.1 hl with hl | hl
    · exact ⟨(h₁.mem_bounds l hl).1, (h₁.mem_bounds l hl).2.trans_le h₂.size_le⟩
    · exact ⟨h₁.size_le.trans (h₂.mem_bounds l hl).1, (h₂.mem_bounds l hl).2⟩
  isFinal l hl := by
    rcases List.mem_append.1 hl with hl | hl
    · rw [IsFinal, h₂.apply_eq l (h₁.mem_bounds l hl).2]
      exact h₁.isFinal l hl
    · exact h₂.isFinal l hl
  settled hs := h₂.settled (h₁.settled hs)

/-- A new label that is made to stand for another one is no longer among those that stand for
themselves. -/
theorem Grows.forward (h : Grows L L₁ (source :: live)) (ht : target ∈ live) :
    Grows L (L₁.forward source target) live := by
  obtain ⟨hsource, hnodup⟩ := List.nodup_cons.1 h.nodup
  obtain ⟨hge, hlt⟩ := h.mem_bounds source List.mem_cons_self
  have hne : ∀ l ∈ live, l ≠ source := fun l hl he => hsource (he ▸ hl)
  refine ⟨by rw [size_forward]; exact h.size_le, fun l hl => ?_, hnodup, fun l hl => ?_,
    fun l hl => ?_, fun hs => ?_⟩
  · rw [apply_forward hlt, if_neg (Nat.ne_of_lt (hl.trans_le hge)), h.apply_eq l hl]
  · rw [size_forward]
    exact h.mem_bounds l (List.mem_cons_of_mem _ hl)
  · exact (h.isFinal l (List.mem_cons_of_mem _ hl)).forward target hlt (hne l hl)
  · exact (h.settled hs).forward hlt (h.isFinal source List.mem_cons_self)
      (h.isFinal target (List.mem_cons_of_mem _ ht)) (hne target ht)

/-- The positions that `π` gives to the labels handed out between `L` and `L₁` are those of their
targets. -/
def Respects (π : Nat → Nat) (L L₁ : Labels) : Prop :=
  ∀ l, L.size ≤ l → l < L₁.size → π (L₁.apply l) = π l

theorem Respects.of_add (h : Respects π L L₁.add) : Respects π L L₁ := by
  intro l hl hl₁
  rw [← apply_add]
  exact h l hl (by rw [size_add]; exact Nat.lt_succ_of_lt hl₁)

theorem Respects.left (h : Respects π L L₂) (hg : Grows L₁ L₂ live) : Respects π L L₁ := by
  intro l hl hl₁
  rw [← hg.apply_eq l hl₁]
  exact h l hl (hl₁.trans_le hg.size_le)

theorem Respects.right (h : Respects π L L₂) (hg : Grows L L₁ live) : Respects π L₁ L₂ :=
  fun l hl hl₂ => h l (hg.size_le.trans hl) hl₂

/-- A label and the one it has been made to stand for have the same position. -/
theorem Respects.eq_of_forward (h : Respects π L (L₁.forward source target))
    (hg : Grows L L₁ live) (hs : source ∈ live) : π target = π source := by
  obtain ⟨hge, hlt⟩ := hg.mem_bounds source hs
  have hsource := h source hge (by rwa [size_forward])
  rwa [apply_forward hlt, if_pos rfl] at hsource

theorem Respects.of_forward (h : Respects π L (L₁.forward source target))
    (hg : Grows L L₁ live) (hs : source ∈ live) : Respects π L L₁ := by
  intro l hl hl₁
  have hl' := h l hl (by rwa [size_forward])
  rw [apply_forward (hg.mem_bounds source hs).2] at hl'
  split at hl'
  · rename_i he
    rw [he, hg.isFinal source hs]
  · exact hl'

end Labels

/-! ### Positions in a row -/

/-- The map `π` puts labels one after the other, from position `base` on. -/
def Placed (π : Nat → Nat) : Nat → List Nat → Prop
  | _, [] => True
  | base, l :: ls => π l = base ∧ Placed π (base + 1) ls

variable {π : Nat → Nat} {base : Nat}

@[simp] theorem placed_nil : Placed π base [] := trivial

@[simp] theorem placed_cons {l : Nat} {ls : List Nat} :
    Placed π base (l :: ls) ↔ π l = base ∧ Placed π (base + 1) ls := Iff.rfl

@[simp] theorem placed_append {xs ys : List Nat} :
    Placed π base (xs ++ ys) ↔ Placed π base xs ∧ Placed π (base + xs.length) ys := by
  induction xs generalizing base with
  | nil => simp
  | cons x xs ih => simp [ih, and_assoc, Nat.add_right_comm, Nat.add_assoc]

/-- Labels are in a row if each of them has the position that its index says. -/
theorem placed_of_getElem {ls : List Nat}
    (h : ∀ k (hk : k < ls.length), π ls[k] = base + k) : Placed π base ls := by
  induction ls generalizing base with
  | nil => trivial
  | cons l ls ih =>
    refine ⟨h 0 (Nat.succ_pos _), ih fun k hk => ?_⟩
    have hk' := h (k + 1) (Nat.succ_lt_succ hk)
    rw [List.getElem_cons_succ] at hk'
    omega

/-- A chain is entered at its first instruction. -/
theorem Placed.entry {c : Chain} (h : Placed π base (c.code.map Fragment.label)) :
    π c.entry = base := h.1

end Lockstep
