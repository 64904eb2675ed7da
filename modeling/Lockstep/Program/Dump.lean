import Lockstep.Program.Basic
import Lockstep.Text.Quoted

/-!
# Dumps of programs

A dump shows the instructions of a program one to a line, each behind its position.

* `Instruction.dump`: an instruction with its operands in parentheses.
* `Program.dump`: all instructions of a program.
-/

namespace Lockstep

/-- Ranges in a dump, as pairs of quoted characters. -/
def dumpRanges (ranges : List CharRange) : String :=
  let pairs := ranges.map fun range =>
    "(" ++ Quoted.quote range.lo ++ ", " ++ Quoted.quote range.hi ++ ")"
  "[" ++ ", ".intercalate pairs ++ "]"

/-- An instruction in a dump. -/
def Instruction.dump : Instruction → String
  | char c => "Char(" ++ Quoted.quote c ++ ")"
  | any => "Any"
  | inside ranges => "Range(" ++ dumpRanges ranges ++ ")"
  | outside ranges => "NRange(" ++ dumpRanges ranges ++ ")"
  | accept => "Match"
  | jump target => "Jump(" ++ toString target ++ ")"
  | split first second => "Split(" ++ toString first ++ ", " ++ toString second ++ ")"
  | save slot => "Save(" ++ toString slot ++ ")"

/-- A number behind as many blanks as make it at least `width` characters long. -/
def alignRight (width n : Nat) : String :=
  let digits := toString n
  String.ofList (List.replicate (width - digits.length) ' ') ++ digits

/-- The instructions of a program, one to a line. -/
def Program.dump (p : Program) : String :=
  String.join <| p.body.toList.zipIdx.map fun (i, position) =>
    alignRight 3 position ++ ": " ++ i.dump ++ "\n"

end Lockstep
