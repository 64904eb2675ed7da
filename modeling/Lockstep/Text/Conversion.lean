import Lockstep.Text.Basic

/-!
# Texts made from other texts

* `Text.append?`: one text behind another of the same kind; `Text.StartsWith`: texts with a given
  beginning.
* `Text.widened`: the wide text with the characters of given bytes; `Text.widenedOffset`: where the
  character of a byte starts in it.
-/

namespace Lockstep.Text

/-- The second text behind the first; `none` unless both are of the same kind. -/
def append? : Text → Text → Option Text
  | wide a, wide b => some (wide (a ++ b))
  | narrow a, narrow b => some (narrow (a ++ b))
  | _, _ => none

/-- Whether a text is `u` with something of the same kind behind it. -/
def StartsWith (t u : Text) : Prop := ∃ v, u.append? v = some t

/-- The wide text in which each byte has become the character that it stands for. -/
def widened (bytes : List UInt8) : Text := wide (narrow bytes).asString

/-- The offset of the character of byte `ix` in the widened text, which is the size of the
characters before it. -/
def widenedOffset (bytes : List UInt8) (ix : Nat) : Nat := (widened (bytes.take ix)).size

/-- The end of the bytes is widened to the end of the text. -/
@[simp] theorem widenedOffset_length (bytes : List UInt8) :
    widenedOffset bytes bytes.length = (widened bytes).size := by
  rw [widenedOffset, List.take_length]

end Lockstep.Text
