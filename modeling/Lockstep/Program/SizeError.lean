/-!
# Programs that are too large

* `SizeError`: the two ways in which a program can exceed a limit; `SizeError.message` words them.
-/

namespace Lockstep

/-- A program exceeds a limit. -/
inductive SizeError where
  /-- There are more instructions than the limit. -/
  | tooLarge (size limit : Nat)
  /-- There are more slots than the limit. -/
  | tooManySlots (slots limit : Nat)
  deriving DecidableEq, Repr

/-- The wording of an error about the size of a program. -/
def SizeError.message : SizeError → String
  | tooLarge size limit =>
    "Error compiling regex: program of " ++ toString size ++
      " instructions exceeds the size limit of " ++ toString limit
  | tooManySlots slots limit =>
    "Error compiling regex: program uses " ++ toString slots ++
      " capture slots, exceeding the size limit of " ++ toString limit

end Lockstep
