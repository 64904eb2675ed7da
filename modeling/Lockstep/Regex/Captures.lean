import Lockstep.Log

/-!
# Matches and their groups

A match is a range of a text. The groups of a match are numbered from one, in the order of their
opening parentheses, and the whole match is group zero. Group `i` has two slots, one for either
end; it took no part in the match if the first of them was never saved to.

* `Match`, with `Match.length`, `Match.isEmpty` and `Match.content?`.
* `Captures`, with `Captures.group?`, `Captures.groupText` and `Captures.substrings?`.
* `Captures.lookUp`: how a group is looked up with machine words, which might fail.
* `Captures.Cursor`: goes through the groups from both ends.

A program that was not made from a pattern may save offsets in any slot, so the range of a group
need not be a valid part of the text; then there is no text to show.
-/

namespace Lockstep

/-- A range of a text. -/
structure Match where
  text : Text
  start : Nat
  finish : Nat
  deriving DecidableEq

namespace Match

/-- The number of bytes in a match. -/
def length (m : Match) : Nat := m.finish - m.start

/-- Whether there are no bytes in a match. -/
def isEmpty (m : Match) : Bool := decide (m.finish ≤ m.start)

/-- The part of the text that is matched; `none` if the range is not valid. -/
def content? (m : Match) : Option Text := m.text.slice? m.start m.finish

theorem isEmpty_iff_length (m : Match) : m.isEmpty = true ↔ m.length = 0 := by
  simp [isEmpty, length, Nat.sub_eq_zero_iff_le]

end Match

/-- A match together with the slots of its thread. -/
structure Captures where
  text : Text
  start : Nat
  finish : Nat
  slots : Slots
  deriving DecidableEq

/-- Why the text of a group cannot be shown. -/
inductive GroupError where
  /-- There is no such group, or it took no part in the match. -/
  | noGroup (index : Nat)
  /-- The range of the group is not valid. -/
  | invalidRange
  deriving DecidableEq, Repr

/-- The wording of an error about a group, where it has one. -/
def GroupError.message? : GroupError → Option String
  | noGroup index => some ("no group at index '" ++ toString index ++ "'")
  | invalidRange => none

namespace Captures

/-- The whole match. -/
def whole (c : Captures) : Match := ⟨c.text, c.start, c.finish⟩

/-- The number of groups, with the whole match as one of them. -/
def groupCount (c : Captures) : Nat := c.slots.size / 2 + 1

/-- The match of a group; `none` if there is no such group, or if it took no part in the match. -/
def group? (c : Captures) (index : Nat) : Option Match :=
  match index with
  | 0 => some c.whole
  | i + 1 =>
    match c.slots[2 * i]? with
    | none => none
    | some opening =>
      if slotWord opening = unsetWord then none
      else some ⟨c.text, slotWord opening, slotWord c.slots[2 * i + 1]?.join⟩

@[simp] theorem group?_zero (c : Captures) : c.group? 0 = some c.whole := rfl

/-- Why looking up a group with machine words might fail. -/
inductive LookUpError where
  /-- A number does not fit in a word. -/
  | overflow
  /-- There is no such slot. -/
  | noSlot (slot : Nat)
  deriving DecidableEq, Repr

/-- The match of a group, looked up with machine words. The first slot of a group is computed by a
multiplication that stops at the greatest word, and if there is such a slot, then the one behind it
is taken to be there. -/
def lookUp (c : Captures) (index : Nat) : Except LookUpError (Option Match) :=
  match index with
  | 0 => .ok (some c.whole)
  | i + 1 =>
    let slot := min (2 * i) maxWord
    match c.slots[slot]? with
    | none => .ok none
    | some opening =>
      if slotWord opening = unsetWord then .ok none
      else if maxWord < slot + 1 then .error .overflow
      else
        match c.slots[slot + 1]? with
        | none => .error (.noSlot (slot + 1))
        | some closing => .ok (some ⟨c.text, slotWord opening, slotWord closing⟩)

/-- All groups in order. -/
def groups (c : Captures) : List (Option Match) := (List.range c.groupCount).map c.group?

/-- The text of a group. -/
def groupText (c : Captures) (index : Nat) : Except GroupError Text :=
  match c.group? index with
  | none => .error (.noGroup index)
  | some m => (m.content?.map .ok).getD (.error .invalidRange)

/-- The texts of all groups but the whole match; `none` if the range of one of them is not valid. -/
def substrings? (c : Captures) : Option (List (Option Text)) :=
  c.groups.tail.mapM fun group =>
    match group with
    | none => some none
    | some m => m.content?.map some

/-- The groups that are still to be visited, those with a number from `front` up to `back`. -/
structure Cursor where
  captures : Captures
  front : Nat
  back : Nat
  deriving DecidableEq

/-- A cursor over all groups. -/
def cursor (c : Captures) : Cursor := ⟨c, 0, c.groupCount⟩

namespace Cursor

/-- The number of groups still to be visited. -/
def remaining (c : Cursor) : Nat := c.back - c.front

/-- The next group from the front, if there is one left. -/
def next (c : Cursor) : Option (Option Match) × Cursor :=
  if c.front < c.back then (some (c.captures.group? c.front), { c with front := c.front + 1 })
  else (none, c)

/-- The next group from the back, if there is one left. -/
def nextBack (c : Cursor) : Option (Option Match) × Cursor :=
  if c.front < c.back then (some (c.captures.group? (c.back - 1)), { c with back := c.back - 1 })
  else (none, c)

end Cursor

end Captures

end Lockstep
