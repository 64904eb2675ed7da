import Lockstep.Text.Basic

/-!
# Decoding one character at a time

A text is stored as bytes, and a character is read at an offset without looking at what comes before
it. The first byte tells how many there are: below `0x80` it is the character itself, and above it a
table of ranges gives the width. The table does not know whether the byte is a first one at all,
and takes the bytes in the middle of a character for the first of two. What keeps these from being
read is that the part of the text that is then cut out has to lie between two boundaries.

* `leadWidth`: the table.
* `Text.bytes`, `Text.unitAt?`: the bytes of a text and the character that is read at an offset.
* `Text.nextIx?`: the offset behind it; `Text.visits`: the offsets that going on like this comes to.
-/

namespace Lockstep

/-- The width of a character whose first byte is `b`. -/
def leadWidth (b : UInt8) : Nat :=
  if b < 0x80 then 1 else if b < 0xe0 then 2 else if b < 0xf0 then 3 else 4

theorem leadWidth_pos (b : UInt8) : 0 < leadWidth b := by
  unfold leadWidth
  split
  · decide
  · split
    · decide
    · split <;> decide

namespace Text

/-- The bytes of a text. -/
def bytes : Text → List UInt8
  | wide content => content.toUTF8.data.toList
  | narrow bytes => bytes

/-- The character that is read at offset `ix`, with its width. -/
def unitAt? (t : Text) (ix : Nat) : Option Cell := do
  let b ← t.bytes[ix]?
  match t with
  | narrow _ => return Cell.ofByte b
  | wide _ =>
    if b < 0x80 then return Cell.ofByte b
    else
      let part ← t.slice? ix (ix + leadWidth b)
      let cell ← part.cells.head?
      return ⟨cell.char, leadWidth b⟩

/-- The offset behind the character at `ix`. -/
def nextIx? (t : Text) (ix : Nat) : Option Nat :=
  (t.unitAt? ix).map fun cell => ix + cell.width

theorem width_pos_of_unitAt? {t : Text} {ix : Nat} {cell : Cell} (h : t.unitAt? ix = some cell) :
    ix < t.bytes.length ∧ 0 < cell.width := by
  obtain ⟨b, hb, h⟩ := Option.bind_eq_some_iff.1 h
  refine ⟨(List.getElem?_eq_some_iff.1 hb).1, ?_⟩
  cases t with
  | narrow bytes =>
    obtain rfl := Option.some.inj h
    exact Nat.one_pos
  | wide content =>
    simp only at h
    split at h
    · obtain rfl := Option.some.inj h
      exact Nat.one_pos
    · obtain ⟨part, -, h⟩ := Option.bind_eq_some_iff.1 h
      obtain ⟨c, -, h⟩ := Option.bind_eq_some_iff.1 h
      obtain rfl := Option.some.inj h
      exact leadWidth_pos b

/-- Going on leads forward. -/
theorem lt_of_nextIx? {t : Text} {ix next : Nat} (h : t.nextIx? ix = some next) :
    ix < t.bytes.length ∧ ix < next := by
  obtain ⟨cell, hcell, rfl⟩ := Option.map_eq_some_iff.1 h
  obtain ⟨hlt, hpos⟩ := width_pos_of_unitAt? hcell
  exact ⟨hlt, Nat.lt_add_of_pos_right hpos⟩

/-- The offsets that going on from `ix` comes to, one character after the other. -/
def visits (t : Text) (ix : Nat) : List Nat :=
  match h : t.nextIx? ix with
  | none => []
  | some next =>
    have := lt_of_nextIx? h
    next :: t.visits next
  termination_by t.bytes.length - ix

end Text

end Lockstep
