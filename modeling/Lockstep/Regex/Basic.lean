import Lockstep.Error
import Lockstep.Listing.Reader
import Lockstep.Log
import Lockstep.Pattern.Reader
import Lockstep.Program.OfPattern

/-!
# Regular expressions

A regex is a program together with the pattern that it came from, if there was one. It is built
from a pattern, or from a program taken as it is. Either way the program must not exceed a limit
on its instructions; a program taken as it is must not exceed the limit on its slots either. A
pattern never does, since each group costs as many instructions as slots.

* `Program.ofText`: the program of the pattern in a text.
* `Regex`, with `Regex.Source`, `Regex.Options` and `Regex.build`.
* `Regex.buildLine`: what building a regex reports.
-/

namespace Lockstep

/-- The program of the pattern that a text writes, if it has no more instructions than `limit`. -/
def Program.ofText (limit : Nat) (t : Text) : Except Error Program := do
  let e ← (Pattern.ofText t).mapError Error.pattern
  (Program.ofPattern limit e).mapError Error.size

/-- A program that can be run on texts. -/
structure Regex where
  /-- The pattern that the program came from. -/
  source : Option String
  program : Program
  /-- Whether runs are reported in the log. -/
  tracing : Bool
  deriving DecidableEq

namespace Regex

/-- What a regex is built from. -/
inductive Source where
  | pattern (t : Text)
  | program (p : Program)
  deriving DecidableEq

/-- The limit on the size of programs, unless another one is given. -/
def defaultSizeLimit : Nat := 100000

/-- How a regex is built. -/
structure Options where
  sizeLimit : Nat := defaultSizeLimit
  tracing : Bool := false
  deriving DecidableEq, Repr

/-- Builds a regex. -/
def build (options : Options) : Source → Except Error Regex
  | .pattern t => do
    let p ← Program.ofText options.sizeLimit t
    return ⟨some t.asString, p, options.tracing⟩
  | .program p =>
    if options.sizeLimit < p.size then .error (.size (.tooLarge p.size options.sizeLimit))
    else if options.sizeLimit < p.slotCount then
      .error (.size (.tooManySlots p.slotCount options.sizeLimit))
    else .ok ⟨none, p, options.tracing⟩

/-- What building a regex reports. -/
def buildLine (re : Regex) : LogLine :=
  match re.source with
  | some _ => .compiled re.program.size re.program.slotCount
  | none => .loaded re.program.size

/-- The number of groups of a regex, with the whole match as one of them. -/
def groupCount (re : Regex) : Nat := re.program.groupCount

end Regex

end Lockstep
