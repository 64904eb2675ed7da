import Lockstep.Proofs.Text.Boundary
import Lockstep.Text.Conversion

/-!
# Cells of texts made from other texts

* `Text.size_eq_totalWidth`: the size of a text is the width of its cells.
* `Text.eq_or_le_of_isBoundary`: the boundary behind a cell is the next one.
* `Text.cellsFrom_append`: the cells of a text with another one behind it.
* `Text.exists_startsWith`: any text goes on with given characters of one byte each.
* `Aligned`: cells with the same characters at corresponding offsets.
* `Text.cellsFrom_narrow`, `Text.cellsFrom_widened`: the cells of bytes and of their widened text,
  which are aligned by `Text.aligned_widened`.
-/

namespace Lockstep

/-- Items that come behind those that the first bytes belong to are kept. -/
theorem dropWidth?_append_of_le {α : Type} {width : α → Nat} {n : Nat} {xs : List α}
    (h : n ≤ (xs.map width).sum) (ys : List α) :
    dropWidth? width n (xs ++ ys) = (dropWidth? width n xs).map (· ++ ys) := by
  induction n, xs using dropWidth?.induct width with
  | case1 xs => rw [dropWidth?_zero, dropWidth?_zero, Option.map_some]
  | case2 n => cases h
  | case3 n x xs hle ih =>
    rw [List.map_cons, List.sum_cons] at h
    rw [List.cons_append, dropWidth?_succ_cons, dropWidth?_succ_cons, if_pos hle, if_pos hle,
      ih (by omega)]
  | case4 n x xs hle =>
    rw [List.cons_append, dropWidth?_succ_cons, dropWidth?_succ_cons, if_neg hle, if_neg hle,
      Option.map_none]

/-- If each item takes one byte, then as many items as bytes are dropped. -/
theorem getD_dropWidth?_of_width_one {α : Type} {width : α → Nat} {n : Nat} {xs : List α}
    (h : ∀ x ∈ xs, width x = 1) : (dropWidth? width n xs).getD [] = xs.drop n := by
  induction n, xs using dropWidth?.induct width with
  | case1 xs => rw [dropWidth?_zero, Option.getD_some, List.drop_zero]
  | case2 n => rfl
  | case3 n x xs hle ih =>
    obtain ⟨hx, hxs⟩ := List.forall_mem_cons.1 h
    rw [dropWidth?_succ_cons, if_pos hle, ih hxs, hx, Nat.add_sub_cancel, List.drop_succ_cons]
  | case4 n x xs hle =>
    have hx := h x List.mem_cons_self
    omega

theorem utf8ByteSize_ofList (cs : List Char) :
    (String.ofList cs).utf8ByteSize = (cs.map Char.utf8Size).sum := by
  induction cs with
  | nil => rfl
  | cons c cs ih =>
    rw [← List.singleton_append, String.ofList_append, String.utf8ByteSize_append, ih]
    simp

/-- Cells with the same characters, all of them at corresponding offsets. -/
inductive Aligned (At : Nat → Nat → Prop) : List Cell → Nat → List Cell → Nat → Prop
  | nil {o o'} : At o o' → Aligned At [] o [] o'
  | cons {cell cell' cells cells' o o'} : At o o' → cell.char = cell'.char →
    Aligned At cells (o + cell.width) cells' (o' + cell'.width) →
    Aligned At (cell :: cells) o (cell' :: cells') o'

theorem Aligned.at {At : Nat → Nat → Prop} {cells cells' : List Cell} {o o' : Nat}
    (h : Aligned At cells o cells' o') : At o o' := by
  cases h with
  | nil h => exact h
  | cons h => exact h

/-- Cells are aligned with themselves. -/
theorem aligned_id (cells : List Cell) (start : Nat) :
    Aligned (id · = ·) cells start cells start := by
  induction cells generalizing start with
  | nil => exact .nil rfl
  | cons cell cells ih => exact .cons rfl rfl (ih _)

namespace Text

/-- The size of a text is the width of its cells. -/
theorem size_eq_totalWidth (t : Text) : t.size = totalWidth t.cells := by
  cases t with
  | wide content =>
    rw [size, cells_wide, totalWidth, List.map_map, ← String.ofList_toList (s := content),
      utf8ByteSize_ofList, String.toList_ofList]
    rfl
  | narrow bytes =>
    rw [size, cells_narrow, totalWidth, List.map_map]
    induction bytes with
    | nil => rfl
    | cons b bytes ih => rw [List.length_cons, ih, List.map_cons, List.sum_cons, Nat.add_comm]; rfl

/-- The end of a text is a boundary. -/
theorem isBoundary_size (t : Text) : t.IsBoundary t.size := by
  rw [size_eq_totalWidth]
  exact isBoundary_of_cells_eq (List.append_nil t.cells).symm

/-- From a boundary on, a text is as wide as what is left of it. -/
theorem add_totalWidth_cellsFrom {t : Text} {ix : Nat} (h : t.IsBoundary ix) :
    ix + totalWidth (t.cellsFrom ix) = t.size := by
  obtain ⟨before, hcells, rfl⟩ := cells_eq_append h
  rw [size_eq_totalWidth, ← totalWidth_append, ← hcells]

section Order

variable {t : Text} {ix b : Nat}

/-- There is no boundary behind the last one. -/
theorem eq_of_isBoundary_of_cellsFrom_eq_nil (h : t.IsBoundary ix) (hnil : t.cellsFrom ix = [])
    (hb : t.IsBoundary b) (hle : ix ≤ b) : b = ix := by
  have hend := add_totalWidth_cellsFrom h
  have hsize := add_totalWidth_cellsFrom hb
  rw [hnil] at hend
  simp only [totalWidth, List.map_nil, List.sum_nil, Nat.add_zero] at hend
  omega

/-- A boundary that is not before that of a cell is not before the end of the cell either. -/
theorem eq_or_le_of_isBoundary {cell : Cell} {rest : List Cell} (h : t.IsBoundary ix)
    (hcell : t.cellsFrom ix = cell :: rest) (hb : t.IsBoundary b) (hle : ix ≤ b) :
    b = ix ∨ ix + cell.width ≤ b := by
  obtain ⟨before, hcells, rfl⟩ := cells_eq_append h
  obtain ⟨before', after', hcells', rfl⟩ := isBoundary_iff.1 hb
  rw [hcell, hcells'] at hcells
  rcases List.append_eq_append_iff.1 hcells with ⟨middle, rfl, -⟩ | ⟨middle, rfl, hmiddle⟩
  · rw [totalWidth_append] at hle ⊢
    omega
  · cases middle with
    | nil => exact Or.inl (congrArg totalWidth (List.append_nil before))
    | cons first middle =>
      obtain ⟨rfl, -⟩ := List.cons.inj hmiddle
      rw [totalWidth_append, totalWidth_cons]
      omega

/-- At the end of a text no cells are left. -/
theorem cellsFrom_size (t : Text) : t.cellsFrom t.size = [] := by
  rw [size_eq_totalWidth]
  exact cellsFrom_of_cells_eq (List.append_nil t.cells).symm

end Order

/-! ### One text behind another -/

theorem cells_append {t u v : Text} (h : t.append? u = some v) : v.cells = t.cells ++ u.cells := by
  cases t <;> cases u <;> cases h
  · rw [cells_wide, String.toList_append, List.map_append]
    rfl
  · exact List.map_append

/-- At a boundary of the first text, the cells of the second follow those that are left; inside a
character there are none to begin with. -/
theorem cellsFrom_append {t u v : Text} (h : t.append? u = some v) {ix : Nat} (hix : ix ≤ t.size) :
    v.cellsFrom ix = t.cellsFrom ix ++ u.cells ∧ t.IsBoundary ix ∨
      v.cellsFrom ix = [] ∧ t.cellsFrom ix = [] := by
  rw [size_eq_totalWidth] at hix
  rw [cellsFrom, cellsFrom, cells_append h, dropWidth?_append_of_le hix, IsBoundary]
  cases dropWidth? Cell.width ix t.cells with
  | none => exact Or.inr ⟨rfl, rfl⟩
  | some rest => exact Or.inl ⟨rfl, rfl⟩

theorem StartsWith.exists_cells_eq {t u : Text} (h : t.StartsWith u) :
    ∃ more, t.cells = u.cells ++ more := by
  obtain ⟨v, hv⟩ := h
  exact ⟨v.cells, cells_append hv⟩

/-- A character of one byte is the same in both kinds of text. -/
theorem ofByte_toUInt8 {c : Char} (h : c.toNat < 128) :
    Cell.ofByte (UInt8.ofNat c.toNat) = Cell.ofChar c := by
  have hsize : c.utf8Size = 1 := by
    rw [Char.utf8Size, if_pos]
    exact UInt32.le_iff_toNat_le.2 (Nat.le_of_lt_succ h)
  have hbyte : (UInt8.ofNat c.toNat).toNat = c.toNat := by
    rw [UInt8.toNat_ofNat', Nat.mod_eq_of_lt (by omega)]
  rw [Cell.ofByte, Cell.ofChar, hsize, hbyte, Char.ofNat_toNat]

/-- Any text goes on with given characters of one byte each. -/
theorem exists_startsWith (t : Text) {cs : List Char} (h : ∀ c ∈ cs, c.toNat < 128) :
    ∃ q : Text, q.StartsWith t ∧ q.cells = t.cells ++ cs.map Cell.ofChar := by
  cases t with
  | wide content =>
    have hv : (wide content).append? (wide (String.ofList cs)) =
        some (wide (content ++ String.ofList cs)) := rfl
    refine ⟨_, ⟨_, hv⟩, ?_⟩
    rw [cells_append hv, cells_wide (String.ofList cs), String.toList_ofList]
  | narrow bytes =>
    let more := cs.map fun c => UInt8.ofNat c.toNat
    have hv : (narrow bytes).append? (narrow more) = some (narrow (bytes ++ more)) := rfl
    refine ⟨_, ⟨_, hv⟩, ?_⟩
    rw [cells_append hv, cells_narrow more, List.map_map]
    exact congrArg _ (List.map_congr_left fun c hc => ofByte_toUInt8 (h c hc))

/-! ### Bytes and their widened text -/

variable (bytes : List UInt8)

theorem cells_widened :
    (widened bytes).cells = bytes.map fun b => Cell.ofChar (Cell.ofByte b).char := by
  rw [widened, cells_wide, asString, String.toList_ofList, List.map_map]
  rfl

theorem cellsFrom_narrow (ix : Nat) :
    (narrow bytes).cellsFrom ix = (bytes.drop ix).map Cell.ofByte := by
  rw [cellsFrom, cells_narrow, List.map_drop]
  exact getD_dropWidth?_of_width_one fun cell hcell => by
    obtain ⟨b, -, rfl⟩ := List.mem_map.1 hcell
    exact Cell.width_ofByte b

/-- The characters from byte `ix` on start at the widened offset. -/
theorem cellsFrom_widened (ix : Nat) :
    (widened bytes).cellsFrom (widenedOffset bytes ix) =
      (bytes.drop ix).map fun b => Cell.ofChar (Cell.ofByte b).char := by
  rw [widenedOffset, size_eq_totalWidth]
  refine cellsFrom_of_cells_eq ?_
  rw [cells_widened, cells_widened, ← List.map_append, List.take_append_drop]

/-- Behind a byte, the widened offset has grown by the width of its character. -/
theorem widenedOffset_succ {ix : Nat} {b : UInt8} {rest : List UInt8}
    (h : bytes.drop ix = b :: rest) :
    widenedOffset bytes (ix + 1) =
      widenedOffset bytes ix + (Cell.ofChar (Cell.ofByte b).char).width := by
  have hb : bytes[ix]? = some b := by rw [← Nat.add_zero ix, ← List.getElem?_drop, h]; rfl
  rw [widenedOffset, widenedOffset, List.take_add_one, hb, size_eq_totalWidth, size_eq_totalWidth,
    cells_widened, cells_widened, List.map_append, totalWidth_append]
  rfl

/-- From corresponding offsets on, there are the same characters in some bytes and in the widened
text. -/
theorem aligned_widened (i : Nat) :
    Aligned (widenedOffset bytes · = ·) ((narrow bytes).cellsFrom i) i
      ((widened bytes).cellsFrom (widenedOffset bytes i)) (widenedOffset bytes i) := by
  rw [cellsFrom_narrow, cellsFrom_widened]
  generalize hrest : bytes.drop i = rest
  induction rest generalizing i with
  | nil => exact .nil rfl
  | cons b rest ih =>
    refine .cons rfl rfl ?_
    rw [Cell.width_ofByte, ← widenedOffset_succ bytes hrest]
    exact ih (i + 1) (by rw [← List.drop_drop, hrest, List.drop_one, List.tail_cons])

end Text

end Lockstep
