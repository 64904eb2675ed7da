import Lockstep.Proofs.Machine.Acceptance

/-!
# Boundaries

The offsets between the cells of a text are its boundaries, and any two of them in order bound a
part of the text.

* `Text.IsBoundary`: no cell is cut in two at an offset, which is not past the end.
* `Text.isBoundary_iff`, `Text.cells_eq_append`: the cells on both sides of a boundary.
* `Text.slice?_eq_some`: the part of a text that some of its cells make up.
-/

namespace Lockstep

section DropWidth

variable {α : Type} {width : α → Nat} {n : Nat} {xs ys before word after : List α}

theorem eq_append_of_dropWidth? (h : dropWidth? width n xs = some ys) :
    ∃ before, xs = before ++ ys ∧ (before.map width).sum = n := by
  induction n, xs using dropWidth?.induct width with
  | case1 xs =>
    rw [dropWidth?_zero, Option.some.injEq] at h
    exact ⟨[], h, rfl⟩
  | case2 n => cases h
  | case3 n x xs hle ih =>
    rw [dropWidth?_succ_cons, if_pos hle] at h
    obtain ⟨before, rfl, hsum⟩ := ih h
    refine ⟨x :: before, rfl, ?_⟩
    rw [List.map_cons, List.sum_cons, hsum, Nat.add_sub_cancel' hle]
  | case4 n x xs hle =>
    rw [dropWidth?_succ_cons, if_neg hle] at h
    cases h

/-- The bytes of the first items can be dropped. -/
theorem dropWidth?_append (hpos : ∀ x ∈ before, 0 < width x) :
    dropWidth? width (before.map width).sum (before ++ ys) = some ys := by
  induction before with
  | nil => exact dropWidth?_zero width ys
  | cons x before ih =>
    obtain ⟨hx, hpos⟩ := List.forall_mem_cons.1 hpos
    obtain ⟨w, hw⟩ := Nat.exists_eq_succ_of_ne_zero hx.ne'
    have hsum : ((x :: before).map width).sum = w + (before.map width).sum + 1 := by
      rw [List.map_cons, List.sum_cons, hw, Nat.succ_add]
    rw [hsum, List.cons_append, dropWidth?_succ_cons, if_pos (by omega), ← ih hpos]
    congr 1
    omega

theorem sliceWidth?_append (hpos : ∀ x ∈ before ++ word, 0 < width x) :
    sliceWidth? width (before.map width).sum ((before.map width).sum + (word.map width).sum)
      (before ++ word ++ after) = some word := by
  obtain ⟨hbefore, hword⟩ := List.forall_mem_append.1 hpos
  rw [sliceWidth?, if_pos (Nat.le_add_right _ _), List.append_assoc, dropWidth?_append hbefore,
    Nat.add_sub_cancel_left]
  show (dropWidth? width (word.map width).sum (word ++ after)).bind _ = _
  rw [dropWidth?_append hword]
  simp

end DropWidth

namespace Text

variable {t : Text} {ix : Nat} {before word after : List Cell}

/-- Whether no cell is cut in two at an offset, which is not past the end. -/
def IsBoundary (t : Text) (ix : Nat) : Prop := (dropWidth? Cell.width ix t.cells).isSome = true

/-- Where no boundary is, no cells are left. -/
theorem cellsFrom_of_not_isBoundary (h : ¬ t.IsBoundary ix) : t.cellsFrom ix = [] := by
  rw [IsBoundary, Bool.not_eq_true, Option.isSome_eq_false_iff, Option.isNone_iff_eq_none] at h
  rw [cellsFrom, h]
  rfl

/-- The cells before a boundary and those from there on. -/
theorem cells_eq_append (h : t.IsBoundary ix) :
    ∃ before, t.cells = before ++ t.cellsFrom ix ∧ totalWidth before = ix := by
  obtain ⟨after, hafter⟩ := Option.isSome_iff_exists.1 h
  rw [cellsFrom, hafter]
  exact eq_append_of_dropWidth? hafter

theorem dropWidth?_totalWidth (h : t.cells = before ++ after) :
    dropWidth? Cell.width (totalWidth before) t.cells = some after := by
  have hpos : ∀ cell ∈ before, 0 < cell.width := fun cell hcell =>
    width_pos_of_mem_cells (h ▸ List.mem_append_left after hcell)
  rw [h, totalWidth, dropWidth?_append hpos]

theorem isBoundary_of_cells_eq (h : t.cells = before ++ after) :
    t.IsBoundary (totalWidth before) := by
  rw [IsBoundary, dropWidth?_totalWidth h]
  rfl

theorem cellsFrom_of_cells_eq (h : t.cells = before ++ after) :
    t.cellsFrom (totalWidth before) = after := by
  rw [cellsFrom, dropWidth?_totalWidth h]
  rfl

/-- Behind the cell at a boundary there is the next boundary. -/
theorem isBoundary_add_width {cell : Cell} (h : t.IsBoundary ix)
    (hcell : t.cellsFrom ix = cell :: after) :
    t.IsBoundary (ix + cell.width) ∧ t.cellsFrom (ix + cell.width) = after := by
  obtain ⟨before, hcells, rfl⟩ := cells_eq_append h
  have hnext : t.cells = before ++ [cell] ++ after := by
    rw [hcells, hcell, List.append_assoc, List.singleton_append]
  have hwidth : totalWidth (before ++ [cell]) = totalWidth before + cell.width := by
    rw [totalWidth_append]
    rfl
  rw [← hwidth]
  exact ⟨isBoundary_of_cells_eq hnext, cellsFrom_of_cells_eq hnext⟩

/-- The boundaries are the offsets that some of the first cells take up. -/
theorem isBoundary_iff :
    t.IsBoundary ix ↔ ∃ before after, t.cells = before ++ after ∧ totalWidth before = ix := by
  constructor
  · intro h
    obtain ⟨before, hcells, hwidth⟩ := cells_eq_append h
    exact ⟨before, _, hcells, hwidth⟩
  · rintro ⟨before, after, hcells, rfl⟩
    exact isBoundary_of_cells_eq hcells

/-- The part of a text between two boundaries consists of the cells between them. -/
theorem slice?_eq_some (h : t.cells = before ++ word ++ after) :
    ∃ u, t.slice? (totalWidth before) (totalWidth before + totalWidth word) = some u ∧
      u.cells = word := by
  cases t with
  | wide content =>
    obtain ⟨front, back, hcontent, hfront, rfl⟩ := List.map_eq_append_iff.1 h
    obtain ⟨before, word, rfl, rfl, rfl⟩ := List.map_eq_append_iff.1 hfront
    have hwidth (cs : List Char) :
        totalWidth (cs.map Cell.ofChar) = (cs.map Char.utf8Size).sum := by
      rw [totalWidth, List.map_map]
      rfl
    refine ⟨wide (String.ofList word), ?_, by rw [cells_wide, String.toList_ofList]⟩
    rw [slice?, hcontent, hwidth, hwidth, sliceWidth?_append fun c _ => c.utf8Size_pos]
    rfl
  | narrow bytes =>
    obtain ⟨front, back, rfl, hfront, rfl⟩ := List.map_eq_append_iff.1 h
    obtain ⟨before, word, rfl, rfl, rfl⟩ := List.map_eq_append_iff.1 hfront
    have hwidth (bs : List UInt8) : totalWidth (bs.map Cell.ofByte) = (bs.map fun _ => 1).sum := by
      rw [totalWidth, List.map_map]
      rfl
    refine ⟨narrow word, ?_, rfl⟩
    rw [slice?, hwidth, hwidth, sliceWidth?_append fun _ _ => Nat.one_pos]
    rfl

end Text

end Lockstep
