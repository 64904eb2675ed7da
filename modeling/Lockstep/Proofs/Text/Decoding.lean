import Lockstep.Proofs.Text.Conversion
import Lockstep.Text.Decoding
import Mathlib.Data.String.Basic

/-!
# Characters are decoded at the boundaries

The first byte of a character gives away its width, but a byte in the middle of a character is not
told from a first one by the table of widths. It is at or above `0x80`, so a part of the text has to
be cut out at its offset, and there is none because the offset is not a boundary.

* `exists_utf8EncodeChar_eq`: what the table says of the bytes of a character.
* `Text.getElem?_bytes_wide`: the byte at an offset belongs to the character that spans it.
* `Text.unitAt?_eq_cellAt?`: what is decoded at an offset is the cell there.
* `Text.isBoundary_wide_iff`: the boundaries of wide text are the valid positions of its string.
* `Text.visits_eq_cons`, `Text.filterMap_unitAt?_visits`: one step of going on, and all of them.
* `Text.decodes_boundaries`: the characters of wide text are decoded at its boundaries.
-/

namespace Lockstep

/-! ### The bytes of a character -/

theorem ofNat_lt_ofNat_iff {n m : Nat} (hn : n < 256) (hm : m < 256) :
    UInt8.ofNat n < UInt8.ofNat m ↔ n < m := by
  rw [UInt8.lt_iff_toNat_lt, UInt8.toNat_ofNat_of_lt' hn, UInt8.toNat_ofNat_of_lt' hm]

theorem ofNat_lt_ascii_iff {n : Nat} (h : n < 256) : UInt8.ofNat n < 0x80 ↔ n < 0x80 :=
  ofNat_lt_ofNat_iff h (by decide)

theorem leadWidth_ofNat {n : Nat} (h : n < 256) :
    leadWidth (UInt8.ofNat n) =
      if n < 0x80 then 1 else if n < 0xe0 then 2 else if n < 0xf0 then 3 else 4 := by
  simp only [leadWidth, ← ofNat_lt_ofNat_iff h (show 0x80 < 256 by decide),
    ← ofNat_lt_ofNat_iff h (show 0xe0 < 256 by decide),
    ← ofNat_lt_ofNat_iff h (show 0xf0 < 256 by decide)]
  rfl

/-- The bytes of a character by the ranges of its code. -/
theorem utf8EncodeChar_eq (c : Char) : String.utf8EncodeChar c =
    if c.toNat ≤ 0x7f then [UInt8.ofNat c.toNat]
    else if c.toNat ≤ 0x7ff then
      [UInt8.ofNat (c.toNat / 64 % 32 + 192), UInt8.ofNat (c.toNat % 64 + 128)]
    else if c.toNat ≤ 0xffff then
      [UInt8.ofNat (c.toNat / 4096 % 16 + 224), UInt8.ofNat (c.toNat / 64 % 64 + 128),
        UInt8.ofNat (c.toNat % 64 + 128)]
    else
      [UInt8.ofNat (c.toNat / 262144 % 8 + 240), UInt8.ofNat (c.toNat / 4096 % 64 + 128),
        UInt8.ofNat (c.toNat / 64 % 64 + 128), UInt8.ofNat (c.toNat % 64 + 128)] := rfl

theorem utf8Size_eq (c : Char) : c.utf8Size =
    if c.toNat ≤ 0x7f then 1 else if c.toNat ≤ 0x7ff then 2
    else if c.toNat ≤ 0xffff then 3 else 4 := rfl

/-- The first byte of a character gives away its width, and also the character if it is below
`0x80`, which none of the others is. -/
theorem exists_utf8EncodeChar_eq (c : Char) : ∃ b rest, String.utf8EncodeChar c = b :: rest ∧
    leadWidth b = c.utf8Size ∧ (b < 0x80 → c = Char.ofNat b.toNat) ∧ ∀ x ∈ rest, ¬ x < 0x80 := by
  have hrest (n : Nat) : ¬ UInt8.ofNat (n % 64 + 128) < 0x80 := by
    rw [ofNat_lt_ascii_iff (by omega)]
    omega
  rw [utf8EncodeChar_eq, utf8Size_eq]
  split_ifs with h₁ h₂ h₃
  · refine ⟨_, _, rfl, ?_, fun _ => ?_, by simp⟩
    · rw [leadWidth_ofNat (by omega), if_pos (by omega)]
    · rw [UInt8.toNat_ofNat_of_lt' (by change _ < 256; omega)]
      exact (Char.ofNat_toNat c).symm
  · refine ⟨_, _, rfl, ?_, ?_, ?_⟩
    · rw [leadWidth_ofNat (by omega), if_neg (by omega), if_pos (by omega)]
    · rw [ofNat_lt_ascii_iff (by omega)]
      omega
    · simp only [List.forall_mem_cons]
      exact ⟨hrest _, by simp⟩
  · refine ⟨_, _, rfl, ?_, ?_, ?_⟩
    · rw [leadWidth_ofNat (by omega), if_neg (by omega), if_neg (by omega), if_pos (by omega)]
    · rw [ofNat_lt_ascii_iff (by omega)]
      omega
    · simp only [List.forall_mem_cons]
      exact ⟨hrest _, hrest _, by simp⟩
  · refine ⟨_, _, rfl, ?_, ?_, ?_⟩
    · rw [leadWidth_ofNat (by omega), if_neg (by omega), if_neg (by omega), if_neg (by omega)]
    · rw [ofNat_lt_ascii_iff (by omega)]
      omega
    · simp only [List.forall_mem_cons]
      exact ⟨hrest _, hrest _, hrest _, by simp⟩

/-- Items are dropped in the same way if they stand for others of the same widths. -/
theorem dropWidth?_map {α β : Type} {width : β → Nat} (f : α → β) (n : Nat) (xs : List α) :
    dropWidth? width n (xs.map f) = (dropWidth? (width ∘ f) n xs).map (List.map f) := by
  induction n, xs using dropWidth?.induct (width ∘ f) with
  | case1 xs => rw [dropWidth?_zero, dropWidth?_zero, Option.map_some]
  | case2 n => rfl
  | case3 n x xs hle ih =>
    rw [List.map_cons, dropWidth?_succ_cons, dropWidth?_succ_cons, if_pos hle, ← ih]
    exact if_pos hle
  | case4 n x xs hle =>
    rw [List.map_cons, dropWidth?_succ_cons, dropWidth?_succ_cons, if_neg hle, Option.map_none]
    exact if_neg hle

namespace Text

variable {t : Text} {ix b : Nat}

/-! ### The cell that spans an offset -/

/-- No cells are left at the end of a text and past it. -/
theorem cellsFrom_of_size_le (h : t.size ≤ ix) : t.cellsFrom ix = [] := by
  by_cases hb : t.IsBoundary ix
  · rw [eq_of_isBoundary_of_cellsFrom_eq_nil t.isBoundary_size t.cellsFrom_size hb h]
    exact t.cellsFrom_size
  · exact cellsFrom_of_not_isBoundary hb

/-- An offset before the end of a text is at the beginning or in the middle of a cell. -/
theorem exists_cells_eq_of_lt_size (h : ix < t.size) : ∃ before cell after,
    t.cells = before ++ cell :: after ∧ totalWidth before ≤ ix ∧
      ix < totalWidth before + cell.width := by
  rw [size_eq_totalWidth] at h
  generalize t.cells = cells at h ⊢
  induction cells generalizing ix with
  | nil => cases h
  | cons cell cells ih =>
    by_cases hlt : ix < cell.width
    · exact ⟨[], cell, cells, rfl, Nat.zero_le ix, by simpa [totalWidth] using hlt⟩
    · rw [totalWidth_cons] at h
      have hrest : ix - cell.width < totalWidth cells := by omega
      obtain ⟨before, c, after, rfl, hle, hlt⟩ := ih hrest
      refine ⟨cell :: before, c, after, rfl, ?_, ?_⟩
      · rw [totalWidth_cons]
        omega
      · rw [totalWidth_cons]
        omega

/-- An offset in the middle of a cell is not a boundary. -/
theorem not_isBoundary_of_lt {before after : List Cell} {cell : Cell}
    (hcells : t.cells = before ++ cell :: after) (hlt : totalWidth before < ix)
    (hix : ix < totalWidth before + cell.width) : ¬ t.IsBoundary ix := fun hb => by
  rcases eq_or_le_of_isBoundary (isBoundary_of_cells_eq hcells) (cellsFrom_of_cells_eq hcells) hb
    hlt.le with rfl | hle
  · exact lt_irrefl _ hlt
  · omega

/-- No part of a text begins where no boundary is. -/
theorem slice?_of_not_isBoundary (h : ¬ t.IsBoundary ix) (b : Nat) : t.slice? ix b = none := by
  cases t with
  | wide content =>
    have hdrop : dropWidth? Char.utf8Size ix content.toList = none := by
      rw [IsBoundary, cells_wide, dropWidth?_map, Option.isSome_map] at h
      exact Option.not_isSome_iff_eq_none.1 h
    rw [slice?, sliceWidth?, hdrop]
    exact congrArg _ (ite_self none)
  | narrow bytes =>
    have hdrop : dropWidth? (fun _ => 1) ix bytes = none := by
      rw [IsBoundary, cells_narrow, dropWidth?_map, Option.isSome_map] at h
      exact Option.not_isSome_iff_eq_none.1 h
    rw [slice?, sliceWidth?, hdrop]
    exact congrArg _ (ite_self none)

/-! ### The bytes of a text -/

theorem bytes_wide (content : String) :
    (wide content).bytes = content.toList.flatMap String.utf8EncodeChar := by
  rw [bytes, String.toUTF8, ← String.utf8Encode_toList, List.utf8Encode,
    List.toList_data_toByteArray]

theorem length_flatMap_utf8EncodeChar (cs : List Char) :
    (cs.flatMap String.utf8EncodeChar).length = totalWidth (cs.map Cell.ofChar) := by
  rw [List.length_flatMap, totalWidth, List.map_map]
  exact congrArg (fun width => (cs.map width).sum) (funext String.length_utf8EncodeChar)

theorem length_bytes (t : Text) : t.bytes.length = t.size := by
  cases t with
  | wide content =>
    rw [bytes_wide, length_flatMap_utf8EncodeChar, size_eq_totalWidth, cells_wide]
  | narrow bytes => rfl

/-- The byte at an offset is one of those of the character that spans the offset. -/
theorem getElem?_bytes_wide {content : String} {before after : List Char} {c : Char} {j : Nat}
    (h : content.toList = before ++ c :: after) (hj : j < c.utf8Size) :
    (wide content).bytes[totalWidth (before.map Cell.ofChar) + j]? =
      (String.utf8EncodeChar c)[j]? := by
  rw [bytes_wide, h, List.flatMap_append, List.flatMap_cons, ← length_flatMap_utf8EncodeChar,
    List.getElem?_append_right (Nat.le_add_right _ _), Nat.add_sub_cancel_left,
    List.getElem?_append_left (by rwa [String.length_utf8EncodeChar])]

/-- The cells on both sides of a character. -/
theorem cells_wide_of_toList_eq {content : String} {before after : List Char} {c : Char}
    (h : content.toList = before ++ c :: after) : (wide content).cells =
      before.map Cell.ofChar ++ Cell.ofChar c :: after.map Cell.ofChar := by
  rw [cells_wide, h, List.map_append, List.map_cons]

/-! ### Decoding at an offset -/

theorem unitAt?_of_size_le (h : t.size ≤ ix) : t.unitAt? ix = none := by
  rw [unitAt?, List.getElem?_eq_none (by rwa [length_bytes])]
  rfl

/-- The character at a boundary is decoded from its own bytes. -/
theorem unitAt?_wide_of_toList_eq {content : String} {before after : List Char} {c : Char}
    (h : content.toList = before ++ c :: after) :
    (wide content).unitAt? (totalWidth (before.map Cell.ofChar)) = some (Cell.ofChar c) := by
  obtain ⟨b, rest, hbytes, hlead, hascii, -⟩ := exists_utf8EncodeChar_eq c
  have hb := getElem?_bytes_wide h c.utf8Size_pos
  rw [Nat.add_zero, hbytes, List.getElem?_cons_zero] at hb
  rw [unitAt?, hb, Option.bind_eq_bind, Option.bind_some]
  by_cases hlt : b < 0x80
  · have hsize : c.utf8Size = 1 := by rw [← hlead, leadWidth, if_pos hlt]
    rw [if_pos hlt, Cell.ofByte, ← hascii hlt, Cell.ofChar, hsize]
    rfl
  · have hcells : (wide content).cells =
        before.map Cell.ofChar ++ [Cell.ofChar c] ++ after.map Cell.ofChar := by
      rw [cells_wide_of_toList_eq h, List.append_assoc, List.singleton_append]
    obtain ⟨part, hpart, hcell⟩ := slice?_eq_some hcells
    rw [if_neg hlt, hlead]
    have hwidth : totalWidth [Cell.ofChar c] = c.utf8Size := Nat.add_zero _
    rw [hwidth] at hpart
    rw [hpart, Option.bind_eq_bind, Option.bind_some, hcell]
    rfl

/-- In the middle of a character the byte is not below `0x80`, and so a part would have to be cut
out from there. -/
theorem unitAt?_wide_of_lt {content : String} {before after : List Char} {c : Char} {j : Nat}
    (h : content.toList = before ++ c :: after) (hpos : 0 < j) (hj : j < c.utf8Size) :
    (wide content).unitAt? (totalWidth (before.map Cell.ofChar) + j) = none := by
  obtain ⟨b, rest, hbytes, -, -, hrest⟩ := exists_utf8EncodeChar_eq c
  obtain ⟨k, rfl⟩ := Nat.exists_eq_succ_of_ne_zero hpos.ne'
  have hk : k < rest.length := by
    rw [← String.length_utf8EncodeChar, hbytes, List.length_cons] at hj
    exact Nat.lt_of_succ_lt_succ hj
  have hb := getElem?_bytes_wide h hj
  rw [hbytes, List.getElem?_cons_succ, List.getElem?_eq_getElem hk] at hb
  have hmiddle := not_isBoundary_of_lt (cells_wide_of_toList_eq h) (Nat.lt_add_of_pos_right hpos)
    (Nat.add_lt_add_left hj _)
  rw [unitAt?, hb, Option.bind_eq_bind, Option.bind_some, if_neg (hrest _ (List.getElem_mem hk)),
    slice?_of_not_isBoundary hmiddle]
  rfl

/-- What is decoded at an offset from the bytes there is the cell that starts there. -/
theorem unitAt?_eq_cellAt? (t : Text) (ix : Nat) : t.unitAt? ix = t.cellAt? ix := by
  rcases Nat.lt_or_ge ix t.size with hlt | hge
  · cases t with
    | narrow bytes =>
      rw [unitAt?, Text.bytes, cellAt?, cellsFrom_narrow, List.head?_map, List.head?_drop]
      cases bytes[ix]? <;> rfl
    | wide content =>
      obtain ⟨before, cell, after, hcells, hle, hlt⟩ := exists_cells_eq_of_lt_size hlt
      obtain ⟨before, rest, hcontent, rfl, hrest⟩ := List.map_eq_append_iff.1 hcells
      obtain ⟨c, after, rfl, rfl, rfl⟩ := List.map_eq_cons_iff.1 hrest
      obtain ⟨j, rfl⟩ := Nat.exists_eq_add_of_le hle
      have hj : j < c.utf8Size := Nat.lt_of_add_lt_add_left hlt
      rcases Nat.eq_zero_or_pos j with rfl | hpos
      · rw [Nat.add_zero, unitAt?_wide_of_toList_eq hcontent, cellAt?,
          cellsFrom_of_cells_eq hcells]
        rfl
      · rw [unitAt?_wide_of_lt hcontent hpos hj, cellAt?, cellsFrom_of_not_isBoundary
          (not_isBoundary_of_lt hcells (Nat.lt_add_of_pos_right hpos) hlt)]
        rfl
  · rw [unitAt?_of_size_le hge, cellAt?, cellsFrom_of_size_le hge]
    rfl

/-! ### Going on -/

theorem nextIx?_eq (t : Text) (ix : Nat) :
    t.nextIx? ix = (t.cellsFrom ix).head?.map fun cell => ix + cell.width := by
  rw [nextIx?, unitAt?_eq_cellAt?, cellAt?]

theorem visits_eq_nil (h : t.cellsFrom ix = []) : t.visits ix = [] := by
  have hnext : t.nextIx? ix = none := by
    rw [nextIx?_eq, h]
    rfl
  rw [visits]
  split
  · rfl
  next next heq =>
    rw [hnext] at heq
    cases heq

theorem visits_eq_cons {cell : Cell} {rest : List Cell} (h : t.cellsFrom ix = cell :: rest) :
    t.visits ix = (ix + cell.width) :: t.visits (ix + cell.width) := by
  have hnext : t.nextIx? ix = some (ix + cell.width) := by
    rw [nextIx?_eq, h]
    rfl
  rw [visits]
  split
  next heq =>
    rw [hnext] at heq
    cases heq
  next next heq =>
    obtain rfl := Option.some.inj (hnext.symm.trans heq)
    rfl

/-- Going on from a boundary visits every later boundary. -/
theorem mem_visits_iff (h : t.IsBoundary ix) : b ∈ t.visits ix ↔ t.IsBoundary b ∧ ix < b := by
  generalize hcells : t.cellsFrom ix = cells
  induction cells generalizing ix with
  | nil =>
    rw [visits_eq_nil hcells]
    constructor
    · intro hb
      cases hb
    · rintro ⟨hb, hlt⟩
      exact absurd (eq_of_isBoundary_of_cellsFrom_eq_nil h hcells hb hlt.le) hlt.ne'
  | cons cell rest ih =>
    obtain ⟨hnext, hrest⟩ := isBoundary_add_width h hcells
    have hpos : 0 < cell.width :=
      width_pos_of_mem_cellsFrom (hcells ▸ List.mem_cons_self)
    rw [visits_eq_cons hcells, List.mem_cons, ih hnext hrest]
    constructor
    · rintro (rfl | ⟨hb, hlt⟩)
      · exact ⟨hnext, Nat.lt_add_of_pos_right hpos⟩
      · exact ⟨hb, (Nat.le_add_right ix cell.width).trans_lt hlt⟩
    · rintro ⟨hb, hlt⟩
      have hle := (eq_or_le_of_isBoundary h hcells hb hlt.le).resolve_left hlt.ne'
      exact hle.eq_or_lt.imp Eq.symm fun hlt => ⟨hb, hlt⟩

/-- The visited offsets grow. -/
theorem pairwise_lt_visits (h : t.IsBoundary ix) : (t.visits ix).Pairwise (· < ·) := by
  generalize hcells : t.cellsFrom ix = cells
  induction cells generalizing ix with
  | nil =>
    rw [visits_eq_nil hcells]
    exact List.Pairwise.nil
  | cons cell rest ih =>
    obtain ⟨hnext, hrest⟩ := isBoundary_add_width h hcells
    rw [visits_eq_cons hcells]
    exact List.pairwise_cons.2 ⟨fun b hb => ((mem_visits_iff hnext).1 hb).2, ih hnext hrest⟩

/-- What is decoded on the way from a boundary to the end are the cells from there on. -/
theorem filterMap_unitAt?_visits (h : t.IsBoundary ix) :
    (ix :: t.visits ix).filterMap t.unitAt? = t.cellsFrom ix := by
  generalize hcells : t.cellsFrom ix = cells
  induction cells generalizing ix with
  | nil =>
    have hunit : t.unitAt? ix = none := by
      rw [unitAt?_eq_cellAt?, cellAt?, hcells]
      rfl
    rw [visits_eq_nil hcells, List.filterMap_cons_none hunit, List.filterMap_nil]
  | cons cell rest ih =>
    obtain ⟨hnext, hrest⟩ := isBoundary_add_width h hcells
    have hunit : t.unitAt? ix = some cell := by
      rw [unitAt?_eq_cellAt?, cellAt?, hcells]
      rfl
    rw [visits_eq_cons hcells, List.filterMap_cons_some hunit, ih hnext hrest]

/-! ### Positions of a string -/

/-- The width of the cells of some characters is the size of their string. -/
theorem totalWidth_map_ofChar (cs : List Char) :
    totalWidth (cs.map Cell.ofChar) = (String.ofList cs).utf8ByteSize := by
  rw [utf8ByteSize_ofList, totalWidth, List.map_map]
  rfl

/-- A boundary of wide text divides its string. -/
theorem isBoundary_wide_iff_exists {content : String} : (wide content).IsBoundary ix ↔
    ∃ before after, content = before ++ after ∧ before.utf8ByteSize = ix := by
  rw [isBoundary_iff, cells_wide]
  constructor
  · rintro ⟨front, back, hcells, rfl⟩
    obtain ⟨before, after, hcontent, rfl, rfl⟩ := List.map_eq_append_iff.1 hcells
    refine ⟨String.ofList before, String.ofList after, ?_, (totalWidth_map_ofChar before).symm⟩
    rw [← String.ofList_append, ← hcontent, String.ofList_toList]
  · rintro ⟨before, after, rfl, rfl⟩
    refine ⟨before.toList.map Cell.ofChar, after.toList.map Cell.ofChar, ?_, ?_⟩
    · rw [String.toList_append, List.map_append]
    · rw [totalWidth_map_ofChar, String.ofList_toList]

/-- The boundaries of wide text are the valid positions of its string. -/
theorem isBoundary_wide_iff {content : String} :
    (wide content).IsBoundary ix ↔ String.Pos.Raw.IsValid content ⟨ix⟩ := by
  rw [isBoundary_wide_iff_exists, String.Pos.Raw.isValid_iff_exists_append]
  refine exists_congr fun before => exists_congr fun after => and_congr_right fun _ => ?_
  rw [String.Pos.Raw.ext_iff]
  exact eq_comm

/-- What is left behind some characters are the cells of those that follow. -/
theorem cellsFrom_wide_append (before after : String) :
    (wide (before ++ after)).cellsFrom before.utf8ByteSize = after.toList.map Cell.ofChar := by
  rw [← String.ofList_toList (s := before), ← totalWidth_map_ofChar, String.ofList_toList]
  refine cellsFrom_of_cells_eq ?_
  rw [cells_wide, String.toList_append, List.map_append]

/-- The first of the characters left at a valid position is the character at this position. -/
theorem eq_ofChar_get_of_cellsFrom {content : String} {cell : Cell} {rest : List Cell}
    (h : (wide content).IsBoundary ix) (hcells : (wide content).cellsFrom ix = cell :: rest) :
    cell = Cell.ofChar (String.Pos.Raw.get content ⟨ix⟩) := by
  obtain ⟨front, hfront, rfl⟩ := cells_eq_append h
  rw [hcells] at hfront
  obtain ⟨before, after, hcontent, rfl, hafter⟩ := List.map_eq_append_iff.1 hfront
  obtain ⟨c, after, rfl, rfl, -⟩ := List.map_eq_cons_iff.1 hafter
  have hget := String.get_of_valid before (c :: after)
  rw [← hcontent, String.ofList_toList, ← String.utf8ByteSize_ofList, ← totalWidth_map_ofChar]
    at hget
  rw [hget]
  rfl

/-- A character is decoded at the valid positions before the end. -/
theorem unitAt?_wide_eq_some_iff {content : String} {cell : Cell} :
    (wide content).unitAt? ix = some cell ↔
      (String.Pos.Raw.IsValid content ⟨ix⟩ ∧ ix < content.utf8ByteSize) ∧
        cell = Cell.ofChar (String.Pos.Raw.get content ⟨ix⟩) := by
  rw [unitAt?_eq_cellAt?, ← isBoundary_wide_iff]
  constructor
  · intro h
    obtain ⟨rest, hcells⟩ := List.head?_eq_some_iff.1 h
    have hb : (wide content).IsBoundary ix := by
      by_contra hb
      rw [cellsFrom_of_not_isBoundary hb] at hcells
      cases hcells
    have hlt : ix < content.utf8ByteSize := by
      by_contra hge
      rw [cellsFrom_of_size_le (Nat.le_of_not_lt hge)] at hcells
      cases hcells
    exact ⟨⟨hb, hlt⟩, eq_ofChar_get_of_cellsFrom hb hcells⟩
  · rintro ⟨⟨hb, hlt⟩, rfl⟩
    cases hcells : (wide content).cellsFrom ix with
    | nil =>
      have hend := eq_of_isBoundary_of_cellsFrom_eq_nil hb hcells (isBoundary_size _) hlt.le
      exact absurd hend hlt.ne'
    | cons cell rest => rw [cellAt?, hcells, eq_ofChar_get_of_cellsFrom hb hcells, List.head?_cons]

/-- The characters of wide text are decoded, with their widths, at the valid positions before its
end, and nothing is decoded elsewhere: these are the cells that programs are run on. Going on from a
valid position visits the later ones, the end included, and what is decoded on the way is the rest
of the string. -/
theorem decodes_boundaries (content : String) :
    (∀ ix, (wide content).unitAt? ix = (wide content).cellAt? ix) ∧
    (∀ ix c n, (wide content).unitAt? ix = some ⟨c, n⟩ ↔
      (String.Pos.Raw.IsValid content ⟨ix⟩ ∧ ix < content.utf8ByteSize) ∧
        c = String.Pos.Raw.get content ⟨ix⟩ ∧ n = c.utf8Size) ∧
    (∀ ix, (wide content).unitAt? ix = none ↔
      ¬ String.Pos.Raw.IsValid content ⟨ix⟩ ∨ content.utf8ByteSize ≤ ix) ∧
    ∀ ix, String.Pos.Raw.IsValid content ⟨ix⟩ →
      ((wide content).visits ix).Pairwise (· < ·) ∧
      (∀ b, b ∈ (wide content).visits ix ↔ String.Pos.Raw.IsValid content ⟨b⟩ ∧ ix < b) ∧
      ∃ before : String, before.utf8ByteSize = ix ∧ content = before ++ String.ofList
        (((ix :: (wide content).visits ix).filterMap (wide content).unitAt?).map Cell.char) := by
  refine ⟨unitAt?_eq_cellAt? _, fun ix c n => ?_, fun ix => ?_, fun ix h => ?_⟩
  · rw [unitAt?_wide_eq_some_iff, Cell.ofChar, Cell.mk.injEq]
    refine and_congr_right fun _ => and_congr_right fun hc => ?_
    rw [hc]
  · rw [Option.eq_none_iff_forall_ne_some]
    simp only [ne_eq, unitAt?_wide_eq_some_iff, not_and]
    constructor
    · intro hnone
      by_contra hsome
      rw [not_or, not_not, Nat.not_le] at hsome
      exact hnone _ hsome rfl
    · rintro (hb | hge) cell ⟨hb', hlt⟩
      · exact absurd hb' hb
      · exact absurd hlt hge.not_gt
  · rw [← isBoundary_wide_iff] at h
    refine ⟨pairwise_lt_visits h, fun b => ?_, ?_⟩
    · rw [mem_visits_iff h, isBoundary_wide_iff]
    · rw [filterMap_unitAt?_visits h]
      obtain ⟨before, after, rfl, rfl⟩ := isBoundary_wide_iff_exists.1 h
      have hchars : (after.toList.map Cell.ofChar).map Cell.char = after.toList := by
        rw [List.map_map]
        exact List.map_id _
      rw [cellsFrom_wide_append, hchars, String.ofList_toList]
      exact ⟨before, rfl, rfl⟩

/-- The byte in the middle of the second character is one that the table takes for the first of two,
but nothing is decoded there. -/
theorem decodes_boundaries_of_four_widths :
    (wide "aé€😀").unitAt? 1 = some ⟨'é', 2⟩ ∧ (wide "aé€😀").unitAt? 2 = none ∧
      (wide "aé€😀").unitAt? 10 = none ∧ String.Pos.Raw.IsValid "aé€😀" ⟨1⟩ ∧
      6 ∈ (wide "aé€😀").visits 1 ∧ 5 ∉ (wide "aé€😀").visits 1 := by
  obtain ⟨-, hsome, hnone, hvisits⟩ := decodes_boundaries "aé€😀"
  have hone : String.Pos.Raw.IsValid "aé€😀" ⟨1⟩ := by decide
  obtain ⟨-, hmem, -⟩ := hvisits 1 hone
  refine ⟨(hsome _ _ _).2 ⟨⟨hone, by decide⟩, by decide, by decide⟩,
    (hnone _).2 (Or.inl (by decide)), (hnone _).2 (Or.inr (by decide)), hone,
    (hmem 6).2 (by decide), fun h => ?_⟩
  exact absurd ((hmem 5).1 h) (by decide)

end Text

end Lockstep
