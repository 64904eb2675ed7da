import Lockstep.Listing.Error
import Lockstep.Pattern.Error
import Lockstep.Program.SizeError

/-!
# Errors

* `Error`: why no regex could be built; `Error.message` words it.
-/

namespace Lockstep

/-- Why no regex could be built. Matching never fails. -/
inductive Error where
  /-- The pattern is not well formed. -/
  | pattern (e : Pattern.Error)
  /-- The program is too large. -/
  | size (e : SizeError)
  /-- The listing is not well formed. -/
  | listing (e : Listing.Error)
  deriving DecidableEq, Repr

/-- The wording of an error. -/
def Error.message : Error → String
  | pattern e => e.message
  | size e => e.message
  | listing e => e.message

end Lockstep
