/-!
# Texts, cells and offsets

A text is what a pattern is read from and what a program is run on. *Wide* text is a string, read
one character at a time; *narrow* text is a list of bytes, each read as the character with that
code. Offsets count bytes, so a wide character spans one to four of them and a narrow one exactly
one.

* `Cell`: a character together with its width; `Text.cells` reads a text as its cells.
* `Text.cellsFrom t ix`: the cells from offset `ix` on. There are none when `ix` is inside a
  character, at the end or past it.
* `Text.cellAt? t ix`: the cell that starts at `ix`.
* `Text.slice? t a b`: the part of a text between two offsets that are both boundaries.

`dropWidth?` is the one function that knows what a boundary is; everything else goes through it.
-/

namespace Lockstep

/-- A character of a text and the number of bytes that it takes there. -/
structure Cell where
  char : Char
  width : Nat
  deriving DecidableEq, Repr

/-- A text to read patterns from or to search in. -/
inductive Text where
  /-- Characters in UTF-8. -/
  | wide (content : String)
  /-- Bytes, each standing for the character with that code. -/
  | narrow (bytes : List UInt8)
  deriving DecidableEq

/-- The items left after the first `n` bytes, where `width` gives the bytes of an item;
`none` if the first `n` bytes do not end with an item. -/
def dropWidth? {α : Type} (width : α → Nat) : Nat → List α → Option (List α)
  | 0, xs => some xs
  | _ + 1, [] => none
  | n + 1, x :: xs => if width x ≤ n + 1 then dropWidth? width (n + 1 - width x) xs else none

section DropWidth

variable {α : Type} (width : α → Nat)

@[simp] theorem dropWidth?_zero (xs : List α) : dropWidth? width 0 xs = some xs := by
  cases xs <;> rfl

@[simp] theorem dropWidth?_succ_nil (n : Nat) :
    dropWidth? width (n + 1) ([] : List α) = none := rfl

theorem dropWidth?_succ_cons (n : Nat) (x : α) (xs : List α) :
    dropWidth? width (n + 1) (x :: xs) =
      if width x ≤ n + 1 then dropWidth? width (n + 1 - width x) xs else none := rfl

/-- What is left after the first bytes was there before. -/
theorem mem_of_dropWidth? {n : Nat} {xs ys : List α} (h : dropWidth? width n xs = some ys) {y : α}
    (hy : y ∈ ys) : y ∈ xs := by
  induction n, xs using dropWidth?.induct width with
  | case1 xs =>
    rw [dropWidth?_zero, Option.some.injEq] at h
    exact h ▸ hy
  | case2 n => cases h
  | case3 n x xs hle ih =>
    rw [dropWidth?_succ_cons, if_pos hle] at h
    exact List.mem_cons_of_mem _ (ih h)
  | case4 n x xs hle =>
    rw [dropWidth?_succ_cons, if_neg hle] at h
    cases h

end DropWidth

/-- The items between two offsets; `none` unless both are boundaries and in order. -/
def sliceWidth? {α : Type} (width : α → Nat) (a b : Nat) (xs : List α) : Option (List α) :=
  if a ≤ b then do
    let tail ← dropWidth? width a xs
    let rest ← dropWidth? width (b - a) tail
    return tail.take (tail.length - rest.length)
  else none

namespace Cell

/-- The cell of a character of wide text. -/
def ofChar (c : Char) : Cell := ⟨c, c.utf8Size⟩

/-- The cell of a byte of narrow text. -/
def ofByte (b : UInt8) : Cell := ⟨Char.ofNat b.toNat, 1⟩

@[simp] theorem char_ofChar (c : Char) : (ofChar c).char = c := rfl

@[simp] theorem width_ofByte (b : UInt8) : (ofByte b).width = 1 := rfl

theorem width_ofChar_pos (c : Char) : 0 < (ofChar c).width := Char.utf8Size_pos c

end Cell

namespace Text

/-- The cells of a text, in order. -/
def cells : Text → List Cell
  | wide content => content.toList.map Cell.ofChar
  | narrow bytes => bytes.map Cell.ofByte

@[simp] theorem cells_wide (content : String) :
    (wide content).cells = content.toList.map Cell.ofChar := rfl

@[simp] theorem cells_narrow (bytes : List UInt8) :
    (narrow bytes).cells = bytes.map Cell.ofByte := rfl

/-- The length of a text in bytes. -/
def size : Text → Nat
  | wide content => content.utf8ByteSize
  | narrow bytes => bytes.length

/-- Every cell takes at least one byte, so offsets grow from cell to cell. -/
theorem width_pos_of_mem_cells {t : Text} {cell : Cell} (h : cell ∈ t.cells) : 0 < cell.width := by
  cases t with
  | wide content =>
    obtain ⟨c, -, rfl⟩ := List.mem_map.1 h
    exact Cell.width_ofChar_pos c
  | narrow bytes =>
    obtain ⟨b, -, rfl⟩ := List.mem_map.1 h
    exact Nat.one_pos

/-- The cells from offset `ix` on; none if no cell starts there. -/
def cellsFrom (t : Text) (ix : Nat) : List Cell :=
  (dropWidth? Cell.width ix t.cells).getD []

@[simp] theorem cellsFrom_zero (t : Text) : t.cellsFrom 0 = t.cells := by
  simp [cellsFrom]

theorem width_pos_of_mem_cellsFrom {t : Text} {ix : Nat} {cell : Cell} (h : cell ∈ t.cellsFrom ix) :
    0 < cell.width := by
  unfold cellsFrom at h
  cases hd : dropWidth? Cell.width ix t.cells with
  | none =>
    rw [hd] at h
    cases h
  | some cells =>
    rw [hd] at h
    exact width_pos_of_mem_cells (mem_of_dropWidth? _ hd h)

/-- The cell that starts at offset `ix`. -/
def cellAt? (t : Text) (ix : Nat) : Option Cell :=
  (t.cellsFrom ix).head?

/-- The text between offsets `a` and `b`; `none` unless `a ≤ b` and both are boundaries. -/
def slice? (t : Text) (a b : Nat) : Option Text :=
  match t with
  | wide content => (sliceWidth? Char.utf8Size a b content.toList).map (wide ∘ String.ofList)
  | narrow bytes => (sliceWidth? (fun _ => 1) a b bytes).map narrow

/-- The characters of a text as a string. -/
def asString (t : Text) : String :=
  match t with
  | wide content => content
  | narrow bytes => String.ofList (bytes.map fun b => (Cell.ofByte b).char)

theorem toList_asString (t : Text) : t.asString.toList = t.cells.map Cell.char := by
  cases t with
  | wide content =>
    rw [cells_wide, List.map_map]
    exact (List.map_id _).symm
  | narrow bytes => simp [asString]

end Text

end Lockstep
