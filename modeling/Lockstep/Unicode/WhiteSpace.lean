import Lockstep.Unicode.RangeTable

/-!
# Blank and control characters

* `Unicode.isWhiteSpace`: the property `White_Space`, the 25 characters that separate words.
* `Unicode.isControl`: the general category control.
-/

namespace Lockstep.Unicode

/-- The ranges of `White_Space`. -/
def whiteSpace : RangeTable := ⟨#[
  (0x9, 0xd), (0x20, 0x20), (0x85, 0x85), (0xa0, 0xa0), (0x1680, 0x1680), (0x2000, 0x200a),
  (0x2028, 0x2029), (0x202f, 0x202f), (0x205f, 0x205f), (0x3000, 0x3000)]⟩

/-- Whether a character separates words. -/
def isWhiteSpace (c : Char) : Bool := whiteSpace.contains c

/-- The ranges of the control characters. -/
def control : RangeTable := ⟨#[(0x0, 0x1f), (0x7f, 0x9f)]⟩

/-- Whether a character is a control character. -/
def isControl (c : Char) : Bool := control.contains c

end Lockstep.Unicode
